import Mathlib.Data.List.Perm.Subperm
import Wandr.Lib.Code
import Wandr.Lib.Machine
import Wandr.Lib.Table

/-!
# The store of the protocol

The keys and sessions of the protocol are kept in memory, and written to a snapshot as a whole. What
number the next key is to have, and which key of last resort is the current one, is noted beside the
keys when they are saved.

* `Op`, `MemStore.apply`: what changes the store; `snapshotBytes` and `loadInto`: the snapshot;
* `MemStore.reload`: a snapshot gives back the store it was taken from;
* `Keeping.Kept`: the notes agree with the keys;
* `kept_of_run`: they do throughout a run if and only if each step lets them.
-/

namespace Wandr.Signal

open Machine

/-! ## The store -/

/-- What the protocol keeps; the store does not look into it. -/
structure Protocol where
  IdentityKeyPair : Type
  PreKeyRecord : Type
  SignedPreKeyRecord : Type
  KyberPreKeyRecord : Type
  IdentityKey : Type
  SessionRecord : Type
  SenderKeyRecord : Type

/-- A map, in some order. -/
abbrev HashMap (κ α : Type) := Table (Prod.fst : κ × α → κ)

abbrev HashSet (κ : Type) := Table (id : κ → κ)

structure MemStore (p : Protocol) where
  identity : p.IdentityKeyPair
  registrationId : UInt32
  preKeys : HashMap UInt32 p.PreKeyRecord := .empty
  signed : HashMap UInt32 p.SignedPreKeyRecord := .empty
  kyber : HashMap UInt32 p.KyberPreKeyRecord := .empty
  lastResort : HashSet UInt32 := .empty
  identities : HashMap String p.IdentityKey := .empty
  sessions : HashMap String p.SessionRecord := .empty
  senderKeys : HashMap String p.SenderKeyRecord := .empty
  nextSigned : UInt32 := 0
  nextPq : UInt32 := 0
  nextPrekey : UInt32 := 0
  lastSigned : Option UInt32 := none
  lastKyber : Option UInt32 := none

structure ProtocolAddress where
  name : String
  deviceId : Nat

def addrKey (address : ProtocolAddress) : String := s!"{address.name}.{address.deviceId}"

/-- What changes the store. -/
inductive Op (p : Protocol)
  | savePreKey (id : UInt32) (record : p.PreKeyRecord)
  | removePreKey (id : UInt32)
  | saveSignedPreKey (id : UInt32) (record : p.SignedPreKeyRecord)
  | saveKyberPreKey (id : UInt32) (record : p.KyberPreKeyRecord)
  | markKyberPreKeyUsed (id : UInt32)
  | storeLastResortKyberPreKey (id : UInt32) (record : p.KyberPreKeyRecord)
  | removeKyberPreKey (id : UInt32)
  | saveIdentity (address : ProtocolAddress) (identity : p.IdentityKey)
  | storeSession (address : ProtocolAddress) (record : p.SessionRecord)
  | deleteSession (address : ProtocolAddress)
  | deleteAllSessions (name : String)
  | storeSenderKey (sender : ProtocolAddress) (distributionId : String) (record : p.SenderKeyRecord)

namespace MemStore

variable {p : Protocol} (s : MemStore p)

def apply : Op p → MemStore p
  | .savePreKey id record =>
    { s with preKeys := s.preKeys.put (id, record), nextPrekey := id + 1 }
  | .removePreKey id => { s with preKeys := s.preKeys.erase id }
  | .saveSignedPreKey id record =>
    { s with signed := s.signed.put (id, record), lastSigned := some id, nextSigned := id + 1 }
  | .saveKyberPreKey id record =>
    { s with kyber := s.kyber.put (id, record), lastKyber := some id, nextPq := id + 1 }
  | .markKyberPreKeyUsed _ => s
  | .storeLastResortKyberPreKey id record =>
    { s with
      kyber := s.kyber.put (id, record)
      lastResort := s.lastResort.put id
      lastKyber := some id
      nextPq := id + 1 }
  | .removeKyberPreKey id =>
    { s with kyber := s.kyber.erase id, lastResort := s.lastResort.erase id }
  | .saveIdentity address identity =>
    { s with identities := s.identities.put (addrKey address, identity) }
  | .storeSession address record => { s with sessions := s.sessions.put (addrKey address, record) }
  | .deleteSession address => { s with sessions := s.sessions.erase (addrKey address) }
  | .deleteAllSessions name =>
    { s with sessions := s.sessions.retain fun e => !(s!"{name}.".toList.isPrefixOf e.1.toList) }
  | .storeSenderKey sender distributionId record =>
    { s with senderKeys := s.senderKeys.put (s!"{addrKey sender}|{distributionId}", record) }

def nextPreKeyId : UInt32 := s.nextPrekey

def nextSignedPreKeyId : UInt32 := s.nextSigned

def nextPqPreKeyId : UInt32 := s.nextPq

/-- How many keys there are, unless the subtraction underflows. -/
def kyberPreKeysCount (lastResort : Bool) : Option Nat :=
  let total := s.kyber.rows.length
  let lr := s.lastResort.rows.length
  if lastResort then some lr else if lr ≤ total then some (total - lr) else none

def signedPrekeyId : Option UInt32 := s.lastSigned

def lastResortKyberPrekeyId : Option UInt32 := s.lastKyber

end MemStore

/-! ## Snapshots -/

structure Snapshot where
  preKeys : HashMap UInt32 (List UInt8)
  signed : HashMap UInt32 (List UInt8)
  kyber : HashMap UInt32 (List UInt8)
  lastResort : List UInt32
  identities : HashMap String (List UInt8)
  sessions : HashMap String (List UInt8)
  senderKeys : HashMap String (List UInt8)
  nextSigned : UInt32
  nextPq : UInt32
  nextPrekey : UInt32
  lastSigned : Option UInt32
  lastKyber : Option UInt32

/-- How something is written and read. -/
structure Codec (α : Type) where
  serialize : α → List UInt8
  deserialize : List UInt8 → Except String α

/-- How the records are written and read, and a snapshot as a whole. -/
structure Codecs (p : Protocol) where
  preKey : Codec p.PreKeyRecord
  signedPreKey : Codec p.SignedPreKeyRecord
  kyberPreKey : Codec p.KyberPreKeyRecord
  identityKey : Codec p.IdentityKey
  session : Codec p.SessionRecord
  senderKey : Codec p.SenderKeyRecord
  snapshot : Codec Snapshot

def HashMap.serialize {κ α : Type} (c : Codec α) (t : HashMap κ α) : HashMap κ (List UInt8) where
  rows := t.rows.map fun e => (e.1, c.serialize e.2)
  nodup := by
    rw [List.map_map]
    exact t.nodup

/-- Entries are read one after the other, until one cannot be. -/
def HashMap.deserialize {κ α : Type} [DecidableEq κ] (c : Codec α) :
    List (κ × List UInt8) → HashMap κ α → HashMap κ α × Except String Unit
  | [], t => (t, .ok ())
  | e :: es, t =>
    match c.deserialize e.2 with
    | .ok record => deserialize c es (t.put (e.1, record))
    | .error err => (t, .error err)

namespace MemStore

variable {p : Protocol} (c : Codecs p)

def takeSnapshot (s : MemStore p) : Snapshot where
  preKeys := HashMap.serialize c.preKey s.preKeys
  signed := HashMap.serialize c.signedPreKey s.signed
  kyber := HashMap.serialize c.kyberPreKey s.kyber
  lastResort := s.lastResort.rows
  identities := HashMap.serialize c.identityKey s.identities
  sessions := HashMap.serialize c.session s.sessions
  senderKeys := HashMap.serialize c.senderKey s.senderKeys
  nextSigned := s.nextSigned
  nextPq := s.nextPq
  nextPrekey := s.nextPrekey
  lastSigned := s.lastSigned
  lastKyber := s.lastKyber

def snapshotBytes (s : MemStore p) : List UInt8 := c.snapshot.serialize (s.takeSnapshot c)

/-- What follows, if all has been read. -/
def andThen (x : MemStore p × Except String Unit)
    (f : MemStore p → MemStore p × Except String Unit) : MemStore p × Except String Unit :=
  match x.2 with
  | .ok () => f x.1
  | .error e => (x.1, .error e)

def loadInto (s : MemStore p) (bytes : List UInt8) : MemStore p × Except String Unit :=
  match c.snapshot.deserialize bytes with
  | .error e => (s, .error s!"snapshot parse: {e}")
  | .ok snap =>
    let pk := HashMap.deserialize c.preKey snap.preKeys.rows .empty
    andThen ({ s with preKeys := pk.1 }, pk.2) fun s =>
    let sp := HashMap.deserialize c.signedPreKey snap.signed.rows .empty
    andThen ({ s with signed := sp.1 }, sp.2) fun s =>
    let ky := HashMap.deserialize c.kyberPreKey snap.kyber.rows .empty
    andThen ({ s with kyber := ky.1 }, ky.2) fun s =>
    let ses := HashMap.deserialize c.session snap.sessions.rows .empty
    andThen ({ s with sessions := ses.1 }, ses.2) fun s =>
    let sk := HashMap.deserialize c.senderKey snap.senderKeys.rows .empty
    andThen ({ s with senderKeys := sk.1 }, sk.2) fun s =>
    let ids := HashMap.deserialize c.identityKey snap.identities.rows .empty
    andThen ({ s with identities := ids.1 }, ids.2) fun s =>
    ({ s with
       lastResort := snap.lastResort.foldl Table.put .empty
       nextSigned := snap.nextSigned
       nextPq := snap.nextPq
       nextPrekey := snap.nextPrekey
       lastSigned := snap.lastSigned
       lastKyber := snap.lastKyber }, .ok ())

end MemStore

/-! ## Reading a snapshot -/

/-- The same, with maps in any order. -/
structure Snapshot.Same (a b : Snapshot) : Prop where
  preKeys : a.preKeys.rows.Perm b.preKeys.rows
  signed : a.signed.rows.Perm b.signed.rows
  kyber : a.kyber.rows.Perm b.kyber.rows
  lastResort : a.lastResort = b.lastResort
  identities : a.identities.rows.Perm b.identities.rows
  sessions : a.sessions.rows.Perm b.sessions.rows
  senderKeys : a.senderKeys.rows.Perm b.senderKeys.rows
  nextSigned : a.nextSigned = b.nextSigned
  nextPq : a.nextPq = b.nextPq
  nextPrekey : a.nextPrekey = b.nextPrekey
  lastSigned : a.lastSigned = b.lastSigned
  lastKyber : a.lastKyber = b.lastKyber

/-- Equal stores, whoever's they are. -/
structure MemStore.Same {p : Protocol} (s t : MemStore p) : Prop where
  preKeys : s.preKeys.rows.Perm t.preKeys.rows
  signed : s.signed.rows.Perm t.signed.rows
  kyber : s.kyber.rows.Perm t.kyber.rows
  lastResort : s.lastResort = t.lastResort
  identities : s.identities.rows.Perm t.identities.rows
  sessions : s.sessions.rows.Perm t.sessions.rows
  senderKeys : s.senderKeys.rows.Perm t.senderKeys.rows
  nextSigned : s.nextSigned = t.nextSigned
  nextPq : s.nextPq = t.nextPq
  nextPrekey : s.nextPrekey = t.nextPrekey
  lastSigned : s.lastSigned = t.lastSigned
  lastKyber : s.lastKyber = t.lastKyber

/-- What was written is read. -/
def Codec.Lawful {α : Type} (c : Codec α) : Prop := ∀ a, c.deserialize (c.serialize a) = .ok a

/-- What was written is read, a snapshot with its maps in any order. -/
structure Codecs.Lawful {p : Protocol} (c : Codecs p) : Prop where
  preKey : c.preKey.Lawful
  signedPreKey : c.signedPreKey.Lawful
  kyberPreKey : c.kyberPreKey.Lawful
  identityKey : c.identityKey.Lawful
  session : c.session.Lawful
  senderKey : c.senderKey.Lawful
  snapshot : ∀ snap, ∃ snap', c.snapshot.deserialize (c.snapshot.serialize snap) = .ok snap' ∧
    snap'.Same snap

/-- What is a list of images in another order is the images of the list in another order. -/
theorem exists_perm_of_perm_map {α β : Type} {f : α → β} {l : List α} {es : List β}
    (h : es.Perm (l.map f)) : ∃ l' : List α, l'.Perm l ∧ es = l'.map f := by
  induction l generalizing es with
  | nil => exact ⟨[], .nil, h.eq_nil⟩
  | cons a l ih =>
    obtain ⟨xs, ys, rfl⟩ := List.append_of_mem (h.symm.subset List.mem_cons_self)
    obtain ⟨l', hl', he⟩ := ih (List.perm_middle.symm.trans h).cons_inv
    obtain ⟨l₁, l₂, rfl, rfl, rfl⟩ := List.append_eq_map_iff.1 he
    refine ⟨l₁ ++ a :: l₂, List.perm_middle.trans (hl'.cons a), ?_⟩
    rw [List.map_append, List.map_cons]

namespace HashMap

variable {κ α : Type} [DecidableEq κ] {c : Codec α}

theorem deserialize_map (hc : c.Lawful) (rs : List (κ × α)) (t : HashMap κ α) :
    HashMap.deserialize c (rs.map fun r => (r.1, c.serialize r.2)) t =
      (rs.foldl Table.put t, .ok ()) := by
  induction rs generalizing t with
  | nil => rfl
  | cons r rs ih =>
    rw [List.map_cons, HashMap.deserialize, hc]
    exact ih _

/-- Entries are read as those they were written from, in whatever order they come. -/
theorem deserialize_serialize (hc : c.Lawful) {t : HashMap κ α} {es : List (κ × List UInt8)}
    (h : es.Perm (serialize c t).rows) :
    ∃ t', HashMap.deserialize c es .empty = (t', .ok ()) ∧ t'.rows.Perm t.rows := by
  obtain ⟨rs, hrs, rfl⟩ := exists_perm_of_perm_map h
  have hnodup : (rs.map Prod.fst).Nodup := (hrs.map _).nodup_iff.2 t.nodup
  refine ⟨_, deserialize_map hc rs _, ?_⟩
  rw [Table.rows_foldl_put hnodup]
  exact hrs

end HashMap

namespace MemStore

variable {p : Protocol} {c : Codecs p}

theorem andThen_ok {s : MemStore p} {f : MemStore p → MemStore p × Except String Unit} :
    andThen (s, .ok ()) f = f s := rfl

/-- A snapshot is read as the store that it was taken from, by any other store. -/
theorem reload (hc : c.Lawful) (s other : MemStore p) :
    ∃ s', other.loadInto c (s.snapshotBytes c) = (s', .ok ()) ∧ s'.Same s := by
  obtain ⟨snap, hs, h⟩ := hc.snapshot (s.takeSnapshot c)
  obtain ⟨pk, hpk, h₁⟩ := HashMap.deserialize_serialize hc.preKey h.preKeys
  obtain ⟨sp, hsp, h₂⟩ := HashMap.deserialize_serialize hc.signedPreKey h.signed
  obtain ⟨ky, hky, h₃⟩ := HashMap.deserialize_serialize hc.kyberPreKey h.kyber
  obtain ⟨ses, hses, h₄⟩ := HashMap.deserialize_serialize hc.session h.sessions
  obtain ⟨sk, hsk, h₅⟩ := HashMap.deserialize_serialize hc.senderKey h.senderKeys
  obtain ⟨ids, hids, h₆⟩ := HashMap.deserialize_serialize hc.identityKey h.identities
  have hlast : snap.lastResort.foldl Table.put .empty = s.lastResort := by
    rw [h.lastResort]
    exact Table.ext (Table.rows_foldl_put s.lastResort.nodup)
  let s' : MemStore p :=
    { other with
      preKeys := pk
      signed := sp
      kyber := ky
      lastResort := snap.lastResort.foldl Table.put .empty
      identities := ids
      sessions := ses
      senderKeys := sk
      nextSigned := snap.nextSigned
      nextPq := snap.nextPq
      nextPrekey := snap.nextPrekey
      lastSigned := snap.lastSigned
      lastKyber := snap.lastKyber }
  refine ⟨s', ?_, h₁, h₂, h₃, hlast, h₆, h₄, h₅, h.nextSigned, h.nextPq, h.nextPrekey,
    h.lastSigned, h.lastKyber⟩
  rw [loadInto, snapshotBytes, hs]
  simp only [hpk, hsp, hky, hses, hsk, hids, andThen_ok]
  rfl

end MemStore

/-! ## What is noted -/

/-- The store, the snapshots that were taken of it, and under which ids keys were ever saved. -/
structure Keeping (p : Protocol) where
  store : MemStore p
  snapshots : List (MemStore p) := []
  preKeys : List UInt32 := []
  signed : List UInt32 := []
  kyber : List UInt32 := []

namespace Op

variable {p : Protocol}

/-! ### The ids that keys are saved under -/

def preKeys : Op p → List UInt32
  | .savePreKey id _ => [id]
  | _ => []

def signed : Op p → List UInt32
  | .saveSignedPreKey id _ => [id]
  | _ => []

def kyber : Op p → List UInt32
  | .saveKyberPreKey id _ | .storeLastResortKyberPreKey id _ => [id]
  | _ => []

end Op

namespace Keeping

variable {p : Protocol}

inductive Act (p : Protocol)
  | op (o : Op p)
  | snapshot
  | loadInto (n : Nat)

def step (c : Codecs p) (s : Keeping p) : Act p → Keeping p
  | .op o =>
    { s with
      store := s.store.apply o
      preKeys := o.preKeys ++ s.preKeys
      signed := o.signed ++ s.signed
      kyber := o.kyber ++ s.kyber }
  | .snapshot => { s with snapshots := s.snapshots ++ [s.store] }
  | .loadInto n =>
    match s.snapshots[n]? with
    | some t => { s with store := (s.store.loadInto c (t.snapshotBytes c)).1 }
    | none => s

variable (c : Codecs p) (s : Keeping p)

/-- The next ids are new, the keys of last resort are stored, and the current one is one of them. -/
structure Kept : Prop where
  preKeys : ∀ id ∈ s.preKeys, id < s.store.nextPreKeyId
  signed : ∀ id ∈ s.signed, id < s.store.nextSignedPreKeyId
  kyber : ∀ id ∈ s.kyber, id < s.store.nextPqPreKeyId
  newPreKey : s.store.preKeys.get? s.store.nextPreKeyId = none
  newSigned : s.store.signed.get? s.store.nextSignedPreKeyId = none
  newKyber : s.store.kyber.get? s.store.nextPqPreKeyId = none
  lastResort : ∀ id ∈ s.store.lastResort.rows, (s.store.kyber.get? id).isSome
  counts : ∀ lastResort, (s.store.kyberPreKeysCount lastResort).isSome
  current : ∀ id, s.store.lastResortKyberPrekeyId = some id → id ∈ s.store.lastResort.rows
  reload : ∀ other : MemStore p, ∃ t, other.loadInto c (s.store.snapshotBytes c) = (t, .ok ()) ∧ t.Same s.store

/-- Keys are saved under increasing ids, a Kyber key only if it is one of last resort, of which the
    current one is not removed, and no snapshot is loaded that is behind. -/
def Allowed : Act p → Prop
  | .op (.savePreKey id _) => ∀ i ∈ s.preKeys, i ≤ id
  | .op (.saveSignedPreKey id _) => ∀ i ∈ s.signed, i ≤ id
  | .op (.saveKyberPreKey id _) => (∀ i ∈ s.kyber, i ≤ id) ∧ id ∈ s.store.lastResort.rows
  | .op (.storeLastResortKyberPreKey id _) => ∀ i ∈ s.kyber, i ≤ id
  | .op (.removeKyberPreKey id) => s.store.lastKyber ≠ some id
  | .op _ => True
  | .snapshot => True
  | .loadInto n => ∀ t, s.snapshots[n]? = some t →
    (∀ i ∈ s.preKeys, i < t.nextPrekey) ∧ (∀ i ∈ s.signed, i < t.nextSigned) ∧
      ∀ i ∈ s.kyber, i < t.nextPq

/-- Keys are saved under ids that have a next one. -/
def Act.Bounded : Act p → Prop
  | .op o => ∀ id ∈ o.preKeys ++ o.signed ++ o.kyber, id < 0xffffffff
  | .snapshot | .loadInto _ => True

instance Act.decidableBounded : (a : Act p) → Decidable a.Bounded
  | .op o => List.decidableBAll (fun id => id < 0xffffffff) (o.preKeys ++ o.signed ++ o.kyber)
  | .snapshot | .loadInto _ => inferInstanceAs (Decidable True)

end Keeping

/-! ## Stores -/

namespace MemStore

variable {p : Protocol} {s t : MemStore p}

/-- The keys of last resort are stored, and the current one is one of them. -/
structure Sound (s : MemStore p) : Prop where
  lastResort : ∀ id ∈ s.lastResort.rows, (s.kyber.get? id).isSome
  current : ∀ id, s.lastKyber = some id → id ∈ s.lastResort.rows

theorem Sound.count (h : s.Sound) (lastResort : Bool) :
    (s.kyberPreKeysCount lastResort).isSome := by
  have hsub : s.lastResort.rows ⊆ s.kyber.rows.map Prod.fst := fun id hid =>
    Table.mem_keys_iff.2 (h.lastResort id hid)
  have hnodup : s.lastResort.rows.Nodup := List.Nodup.of_map _ s.lastResort.nodup
  have hle : s.lastResort.rows.length ≤ s.kyber.rows.length := by
    have hlen : (s.kyber.rows.map Prod.fst).length = s.kyber.rows.length := List.length_map _
    exact hlen ▸ (hnodup.subperm hsub).length_le
  cases lastResort with
  | true => rfl
  | false => exact Option.isSome_of_eq_some (if_pos hle)

theorem Same.sound_iff (h : s.Same t) : s.Sound ↔ t.Sound := by
  have hlast (id : UInt32) (hid : id ∈ t.lastResort.rows) :
      (s.kyber.get? id).isSome = (t.kyber.get? id).isSome := by rw [Table.get?_perm h.kyber]
  constructor
  · intro hs
    refine ⟨fun id hid => ?_, fun id hid => ?_⟩
    · rw [← hlast id hid]
      exact hs.lastResort id (h.lastResort ▸ hid)
    · exact h.lastResort ▸ hs.current id (h.lastKyber.trans hid)
  · intro ht
    refine ⟨fun id hid => ?_, fun id hid => ?_⟩
    · rw [h.lastResort] at hid
      rw [hlast id hid]
      exact ht.lastResort id hid
    · rw [h.lastResort]
      exact ht.current id (h.lastKyber.symm.trans hid)

/-- A Kyber key that is saved is the current one from then on. -/
theorem sound_saveKyberPreKey (h : s.Sound) (id : UInt32) (record : p.KyberPreKeyRecord) :
    (s.apply (.saveKyberPreKey id record)).Sound ↔ id ∈ s.lastResort.rows := by
  refine ⟨fun h' => h'.current id rfl, fun hid => ⟨fun i hi => ?_, fun i hi => ?_⟩⟩
  · exact Table.isSome_get?_put.2 (.inr (h.lastResort i hi))
  · exact Option.some.inj hi ▸ hid

theorem sound_storeLastResortKyberPreKey (h : s.Sound) {id : UInt32}
    {record : p.KyberPreKeyRecord} : (s.apply (.storeLastResortKyberPreKey id record)).Sound := by
  refine ⟨fun i hi => ?_, fun i hi => ?_⟩
  · rcases Table.mem_rows_put.1 hi with rfl | ⟨hi, -⟩
    · exact Table.isSome_get?_put.2 (.inl rfl)
    · exact Table.isSome_get?_put.2 (.inr (h.lastResort i hi))
  · exact Table.mem_rows_put.2 (.inl (Option.some.inj hi).symm)

/-- The current key stays the current one when it is removed. -/
theorem sound_removeKyberPreKey (h : s.Sound) (id : UInt32) :
    (s.apply (.removeKyberPreKey id)).Sound ↔ s.lastKyber ≠ some id := by
  constructor
  · intro h' hid
    exact (Table.mem_rows_erase.1 (h'.current id hid)).2 rfl
  · refine fun hne => ⟨fun i hi => ?_, fun i hi => ?_⟩
    · obtain ⟨hi, hni⟩ := Table.mem_rows_erase.1 hi
      exact (congrArg Option.isSome (Table.get?_erase.trans (if_neg hni))).trans
        (h.lastResort i hi)
    · refine Table.mem_rows_erase.2 ⟨h.current i hi, ?_⟩
      rintro rfl
      exact hne hi

end MemStore

namespace Keeping

variable {p : Protocol} {c : Codecs p} {s : Keeping p} {t u : MemStore p}

/-- The keys of a store are among those that were saved. -/
structure Saved (s : Keeping p) (t : MemStore p) : Prop where
  preKeys : ∀ e ∈ t.preKeys.rows, e.1 ∈ s.preKeys
  signed : ∀ e ∈ t.signed.rows, e.1 ∈ s.signed
  kyber : ∀ e ∈ t.kyber.rows, e.1 ∈ s.kyber

/-- The next ids of a store are greater than those that keys were saved under. -/
structure Above (s : Keeping p) (t : MemStore p) : Prop where
  preKeys : ∀ id ∈ s.preKeys, id < t.nextPrekey
  signed : ∀ id ∈ s.signed, id < t.nextSigned
  kyber : ∀ id ∈ s.kyber, id < t.nextPq

/-- What holds whatever is done: no snapshot has more keys than were saved. -/
structure Inv (s : Keeping p) : Prop where
  store : s.Saved s.store
  snapshots : ∀ t ∈ s.snapshots, s.Saved t ∧ t.Sound

theorem Saved.congr (h : s.Saved t) (hu : u.Same t) : s.Saved u where
  preKeys e he := h.preKeys e (hu.preKeys.subset he)
  signed e he := h.signed e (hu.signed.subset he)
  kyber e he := h.kyber e (hu.kyber.subset he)

/-- An id that no key was saved under is new. -/
theorem get?_of_lt {α : Type} {table : HashMap UInt32 α} {saved : List UInt32} {next : UInt32}
    (h : ∀ e ∈ table.rows, e.1 ∈ saved) (hlt : ∀ id ∈ saved, id < next) :
    table.get? next = none :=
  Table.get?_eq_none_iff.2 fun e he heq => UInt32.lt_irrefl next (heq ▸ hlt _ (h e he))

theorem kept_iff_above (hc : c.Lawful) (h : s.Inv) :
    s.Kept c ↔ s.Above s.store ∧ s.store.Sound := by
  constructor
  · intro hk
    exact ⟨⟨hk.preKeys, hk.signed, hk.kyber⟩, hk.lastResort, hk.current⟩
  · rintro ⟨ha, hs⟩
    exact
      { preKeys := ha.preKeys
        signed := ha.signed
        kyber := ha.kyber
        newPreKey := get?_of_lt h.store.preKeys ha.preKeys
        newSigned := get?_of_lt h.store.signed ha.signed
        newKyber := get?_of_lt h.store.kyber ha.kyber
        lastResort := hs.lastResort
        counts := hs.count
        current := hs.current
        reload := s.store.reload hc }

/-! ## Steps -/

theorem saved_put {α : Type} {table : HashMap UInt32 α} {saved : List UInt32} {e : UInt32 × α}
    (h : ∀ e ∈ table.rows, e.1 ∈ saved) : ∀ e' ∈ (table.put e).rows, e'.1 ∈ e.1 :: saved := by
  intro e' he'
  rcases Table.mem_rows_put.1 he' with rfl | ⟨he', -⟩
  · exact List.mem_cons_self
  · exact List.mem_cons_of_mem _ (h e' he')

theorem saved_erase {α : Type} {table : HashMap UInt32 α} {saved : List UInt32} {id : UInt32}
    (h : ∀ e ∈ table.rows, e.1 ∈ saved) : ∀ e ∈ (table.erase id).rows, e.1 ∈ saved :=
  fun e he => h e (Table.mem_rows_erase.1 he).1

theorem Saved.op (h : s.Saved s.store) (o : Op p) :
    (s.step c (.op o)).Saved (s.store.apply o) where
  preKeys := by
    cases o with
    | savePreKey id record => exact saved_put h.preKeys
    | removePreKey id => exact saved_erase h.preKeys
    | _ => exact h.preKeys
  signed := by
    cases o with
    | saveSignedPreKey id record => exact saved_put h.signed
    | _ => exact h.signed
  kyber := by
    cases o with
    | saveKyberPreKey id record => exact saved_put h.kyber
    | storeLastResortKyberPreKey id record => exact saved_put h.kyber
    | removeKyberPreKey id => exact saved_erase h.kyber
    | _ => exact h.kyber

theorem Saved.mono (h : s.Saved t) (o : Op p) : (s.step c (.op o)).Saved t where
  preKeys e he := List.mem_append_right _ (h.preKeys e he)
  signed e he := List.mem_append_right _ (h.signed e he)
  kyber e he := List.mem_append_right _ (h.kyber e he)

/-- What a store is after a snapshot is loaded. -/
theorem step_loadInto (hc : c.Lawful) {n : Nat} (ht : s.snapshots[n]? = some t) :
    ∃ u, u.Same t ∧ s.step c (.loadInto n) = { s with store := u } := by
  obtain ⟨u, hload, hu⟩ := MemStore.reload hc t s.store
  refine ⟨u, hu, ?_⟩
  rw [step, ht]
  dsimp only
  rw [hload]

theorem step_loadInto_of_none {n : Nat} (ht : s.snapshots[n]? = none) :
    s.step c (.loadInto n) = s := by
  rw [step, ht]

theorem Inv.step (hc : c.Lawful) (h : s.Inv) (hs : s.store.Sound) (a : Act p) :
    (s.step c a).Inv := by
  cases a with
  | op o =>
    exact ⟨h.store.op o, fun t ht => ⟨(h.snapshots t ht).1.mono o, (h.snapshots t ht).2⟩⟩
  | snapshot =>
    have hstore : s.Saved s.store := h.store
    refine ⟨⟨hstore.preKeys, hstore.signed, hstore.kyber⟩, fun t ht => ?_⟩
    rcases List.mem_append.1 ht with ht | ht
    · obtain ⟨ht, hsound⟩ := h.snapshots t ht
      exact ⟨⟨ht.preKeys, ht.signed, ht.kyber⟩, hsound⟩
    · obtain rfl := List.mem_singleton.1 ht
      exact ⟨⟨hstore.preKeys, hstore.signed, hstore.kyber⟩, hs⟩
  | loadInto n =>
    cases ht : s.snapshots[n]? with
    | none => exact (step_loadInto_of_none (c := c) ht).symm ▸ h
    | some t =>
      obtain ⟨u, hu, he⟩ := step_loadInto hc ht
      have hsaved := (h.snapshots t (List.mem_of_getElem? ht)).1.congr hu
      rw [he]
      exact ⟨⟨hsaved.preKeys, hsaved.signed, hsaved.kyber⟩, fun v hv =>
        ⟨⟨(h.snapshots v hv).1.preKeys, (h.snapshots v hv).1.signed,
          (h.snapshots v hv).1.kyber⟩, (h.snapshots v hv).2⟩⟩

/-- The ids are less than the one after the last, if that one is the greatest. -/
theorem lt_next_iff (saved : List UInt32) {id : UInt32} (hid : id < 0xffffffff) :
    (∀ i ∈ id :: saved, i < id + 1) ↔ ∀ i ∈ saved, i ≤ id := by
  have hlt (i : UInt32) : i < id + 1 ↔ i ≤ id := by
    rw [UInt32.lt_iff_toNat_lt] at hid
    rw [UInt32.lt_iff_toNat_lt, UInt32.le_iff_toNat_le, UInt32.toNat_add,
      Nat.mod_eq_of_lt (Nat.add_lt_of_lt_sub hid)]
    exact Nat.lt_succ_iff
  rw [List.forall_mem_cons, hlt]
  refine (and_iff_right (UInt32.le_refl id)).trans ?_
  exact forall₂_congr fun i _ => hlt i

/-- What each operation does to the notes. -/
theorem op_iff (ha : s.Above s.store) (hs : s.store.Sound) {o : Op p}
    (hb : (Act.op o).Bounded) :
    (s.step c (.op o)).Above (s.store.apply o) ∧ (s.store.apply o).Sound ↔ s.Allowed (.op o) := by
  cases o with
  | savePreKey id record =>
    have hn := lt_next_iff s.preKeys (hb id List.mem_cons_self)
    exact ⟨fun h => hn.1 h.1.preKeys, fun h =>
      ⟨⟨hn.2 h, ha.signed, ha.kyber⟩, hs.lastResort, hs.current⟩⟩
  | saveSignedPreKey id record =>
    have hn := lt_next_iff s.signed (hb id List.mem_cons_self)
    exact ⟨fun h => hn.1 h.1.signed, fun h =>
      ⟨⟨ha.preKeys, hn.2 h, ha.kyber⟩, hs.lastResort, hs.current⟩⟩
  | saveKyberPreKey id record =>
    have hn := lt_next_iff s.kyber (hb id List.mem_cons_self)
    have hsound := MemStore.sound_saveKyberPreKey hs id record
    exact ⟨fun h => ⟨hn.1 h.1.kyber, hsound.1 h.2⟩, fun h =>
      ⟨⟨ha.preKeys, ha.signed, hn.2 h.1⟩, hsound.2 h.2⟩⟩
  | storeLastResortKyberPreKey id record =>
    have hn := lt_next_iff s.kyber (hb id List.mem_cons_self)
    exact ⟨fun h => hn.1 h.1.kyber, fun h =>
      ⟨⟨ha.preKeys, ha.signed, hn.2 h⟩, MemStore.sound_storeLastResortKyberPreKey hs⟩⟩
  | removeKyberPreKey id =>
    have hsound := MemStore.sound_removeKyberPreKey hs id
    exact ⟨fun h => hsound.1 h.2, fun h =>
      ⟨⟨ha.preKeys, ha.signed, ha.kyber⟩, hsound.2 h⟩⟩
  | _ => exact iff_of_true ⟨⟨ha.preKeys, ha.signed, ha.kyber⟩, hs.lastResort, hs.current⟩ trivial

theorem kept_step_iff (hc : c.Lawful) (h : s.Inv) (hk : s.Kept c) {a : Act p} (hb : a.Bounded) :
    (s.step c a).Kept c ↔ s.Allowed a := by
  obtain ⟨ha, hs⟩ := (kept_iff_above hc h).1 hk
  rw [kept_iff_above hc (h.step hc hs a)]
  cases a with
  | op o => exact op_iff ha hs hb
  | snapshot => exact iff_of_true ⟨⟨ha.preKeys, ha.signed, ha.kyber⟩, hs⟩ trivial
  | loadInto n =>
    cases ht : s.snapshots[n]? with
    | none =>
      rw [step_loadInto_of_none ht]
      refine iff_of_true ⟨ha, hs⟩ fun t h' => ?_
      rw [ht] at h'
      cases h'
    | some t =>
      obtain ⟨u, hu, he⟩ := step_loadInto hc ht
      rw [he, hu.sound_iff, and_iff_left (h.snapshots t (List.mem_of_getElem? ht)).2]
      constructor
      · intro h' t' ht'
        obtain rfl := Option.some.inj (ht.symm.trans ht')
        exact ⟨hu.nextPrekey ▸ h'.preKeys, hu.nextSigned ▸ h'.signed, hu.nextPq ▸ h'.kyber⟩
      · intro h'
        obtain ⟨h₁, h₂, h₃⟩ := h' t ht
        exact ⟨hu.nextPrekey ▸ h₁, hu.nextSigned ▸ h₂, hu.nextPq ▸ h₃⟩

/-! ## Runs -/

theorem inv_new (identity : p.IdentityKeyPair) (registrationId : UInt32) :
    Inv { store := { identity, registrationId } } :=
  ⟨⟨fun _ h => absurd h List.not_mem_nil, fun _ h => absurd h List.not_mem_nil,
    fun _ h => absurd h List.not_mem_nil⟩, fun _ h => absurd h List.not_mem_nil⟩

/-- In every state of a run the next ids are new, the keys of last resort are stored, with the
    current one among them, and the store is read from its snapshot, if and only if each step
    allows it. -/
theorem kept_of_run {p : Protocol} (c : Codecs p) (hc : c.Lawful) (identity : p.IdentityKeyPair)
    (registrationId : UInt32) (acts : List (Act p)) (hb : ∀ a ∈ acts, a.Bounded) :
    Goes (step c) (fun s a => (s.step c a).Kept c) { store := { identity, registrationId } } acts ↔
      Goes (step c) Allowed { store := { identity, registrationId } } acts := by
  have hinv := inv_new identity registrationId
  refine goes_congr (J := fun s => s.Inv ∧ s.Kept c) (P := Act.Bounded)
    (fun h hb => kept_step_iff hc h.1 h.2 hb) (fun {s i} h _ hk => ?_) ⟨hinv, ?_⟩ hb
  · exact ⟨h.1.step hc ((kept_iff_above hc h.1).1 h.2).2 i, hk⟩
  · refine (kept_iff_above hc hinv).2 ⟨⟨?_, ?_, ?_⟩, fun _ h => absurd h List.not_mem_nil, ?_⟩
    · exact fun _ h => absurd h List.not_mem_nil
    · exact fun _ h => absurd h List.not_mem_nil
    · exact fun _ h => absurd h List.not_mem_nil
    · intro id h
      cases h

end Keeping

/-! ## Records that are bytes -/

/-- Maps to bytes. -/
def byteMap {κ : Type} [DecidableEq κ] (c : Code κ) : Code (HashMap κ (List UInt8)) :=
  .table (c.pair (.list .byte))

def Snapshot.code : Code Snapshot :=
  let maps := (byteMap .word).pair ((byteMap .word).pair ((byteMap .word).pair (.list .word)))
  let others := (byteMap .text).pair ((byteMap .text).pair (byteMap .text))
  let nexts := Code.word.pair (Code.word.pair .word)
  let lasts := (Code.option .word).pair (.option .word)
  (maps.pair (others.pair (nexts.pair lasts))).map
    (fun s => ((s.preKeys, s.signed, s.kyber, s.lastResort),
      (s.identities, s.sessions, s.senderKeys), (s.nextSigned, s.nextPq, s.nextPrekey),
      s.lastSigned, s.lastKyber))
    (fun ((preKeys, signed, kyber, lastResort), (identities, sessions, senderKeys),
      (nextSigned, nextPq, nextPrekey), lastSigned, lastKyber) => some
      { preKeys, signed, kyber, lastResort, identities, sessions, senderKeys, nextSigned, nextPq,
        nextPrekey, lastSigned, lastKyber })
    fun _ => rfl

def plain : Protocol where
  IdentityKeyPair := Unit
  PreKeyRecord := List UInt8
  SignedPreKeyRecord := List UInt8
  KyberPreKeyRecord := List UInt8
  IdentityKey := List UInt8
  SessionRecord := List UInt8
  SenderKeyRecord := List UInt8

def asIs : Codec (List UInt8) := ⟨id, .ok⟩

def plainCodecs : Codecs plain where
  preKey := asIs
  signedPreKey := asIs
  kyberPreKey := asIs
  identityKey := asIs
  session := asIs
  senderKey := asIs
  snapshot := ⟨Snapshot.code.write, fun bytes =>
    match Snapshot.code.read bytes with
    | some (snap, []) => .ok snap
    | some (_, _ :: _) => .error "trailing characters"
    | none => .error "EOF while parsing a value"⟩

theorem plainCodecs_lawful : plainCodecs.Lawful where
  preKey _ := rfl
  signedPreKey _ := rfl
  kyberPreKey _ := rfl
  identityKey _ := rfl
  session _ := rfl
  senderKey _ := rfl
  snapshot snap := by
    have hread := Snapshot.code.read_write snap []
    rw [List.append_nil] at hread
    refine ⟨snap, ?_, .refl _, .refl _, .refl _, rfl, .refl _, .refl _, .refl _, rfl, rfl, rfl, rfl,
      rfl⟩
    dsimp only [plainCodecs]
    rw [hread]

/-- A key of last resort is stored and the store is saved and loaded again; then a signed key and
    another of last resort are stored. -/
theorem kept_reload : Goes (Keeping.step plainCodecs)
    (fun s a => (s.step plainCodecs a).Kept plainCodecs)
    { store := { identity := (), registrationId := 7 } }
    [.op (.storeLastResortKyberPreKey 1 [10]), .snapshot, .loadInto 0,
      .op (.saveSignedPreKey 1 [20]), .op (.storeLastResortKyberPreKey 2 [30])] := by
  refine (Keeping.kept_of_run plainCodecs plainCodecs_lawful () 7 _ ?_).2 ?_
  · simp only [List.forall_mem_cons]
    refine ⟨?_, trivial, trivial, ?_, ?_, fun _ h => absurd h List.not_mem_nil⟩
    · exact List.forall_mem_singleton.2 (by decide)
    · exact List.forall_mem_singleton.2 (by decide)
    · exact List.forall_mem_singleton.2 (by decide)
  refine ⟨?_, trivial, ?_, ?_, ?_, trivial⟩
  · exact fun _ h => absurd h List.not_mem_nil
  · intro t ht
    obtain rfl := Option.some.inj ht
    refine ⟨fun _ h => absurd h List.not_mem_nil, fun _ h => absurd h List.not_mem_nil, ?_⟩
    exact List.forall_mem_singleton.2 (by decide)
  · exact fun _ h => absurd h List.not_mem_nil
  · exact List.forall_mem_singleton.2 (by decide)

/-- A key of last resort is stored, and then one that is not: it is returned as the current key of
    last resort. -/
theorem oneTime_is_lastResort : ¬ Goes (Keeping.step plainCodecs)
    (fun s a => (s.step plainCodecs a).Kept plainCodecs)
    { store := { identity := (), registrationId := 7 } }
    [.op (.storeLastResortKyberPreKey 1 [10]), .op (.saveKyberPreKey 2 [20])] := by
  intro h
  have hcurrent := h.2.1.current 2 rfl
  exact absurd hcurrent (by decide)

end Wandr.Signal
