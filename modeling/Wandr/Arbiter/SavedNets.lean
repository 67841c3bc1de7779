import Wandr.Arbiter.Net

/-!
# The registry of the saved networks

A saved network is keyed by its name and its security. Adding a network respects the
key; updating one rewrites both of its fields without looking at the other networks.

* `NetModule.keyed_onCommand_iff`: a command keeps the registry keyed exactly when it
  suits it;
* `NetModule.Reaches.keyed`: the registry is keyed after any commands each of which
  suited it;
* `NetModule.saved_twice`: an update saves a network twice.
-/

namespace Wandr

open Text

namespace NetModule

/-- No two networks share a name and a security, or an identifier; every network has a
    name, and the next identifier is above all. -/
structure Keyed (m : NetModule) : Prop where
  keys : (m.saved.map fun n => (n.ssid, n.security)).Nodup
  ids : (m.saved.map SavedNet.id).Nodup
  named : ∀ n ∈ m.saved, n.ssid ≠ ""
  next : ∀ n ∈ m.saved, n.id < m.nextId

/-- Another network can be added: there is an identifier left, unless the network is
    saved already. -/
def Affords (m : NetModule) : List String → Prop
  | [bssid, sec, _, _, _] =>
    b64ToString bssid ≠ "" → (∀ n ∈ m.saved, (n.ssid, n.security) ≠ (b64ToString bssid, sec)) →
      m.nextId + 1 < 2 ^ 32
  | _ => True

/-- An update leaves a network with a name, and with one that no other network of its
    security has. -/
def Distinguishes (m : NetModule) : List String → Prop
  | [idTok, bssid, sec, _, _, _] =>
    ∀ id, parseUnsigned 32 idTok = some id → (∃ n ∈ m.saved, n.id = id) →
      b64ToString bssid ≠ "" ∧
        ∀ n ∈ m.saved, n.id ≠ id → (n.ssid, n.security) ≠ (b64ToString bssid, sec)
  | _ => True

/-- A command suits the registry. -/
def Suits (m : NetModule) (verb : Verb) (args : String) : Prop :=
  match verb with
  | .savedAdd => m.Affords (splitWhitespace args)
  | .savedUpdate => m.Distinguishes (splitWhitespace args)
  | _ => True

/-! ## What the key is made of -/

/-- What a network is found by. -/
def tag (n : SavedNet) : Nat × String × String := (n.id, n.ssid, n.security)

/-- Whether the registry is keyed depends on the tags alone. -/
theorem keyed_congr {m m' : NetModule} (ht : m'.saved.map tag = m.saved.map tag)
    (hn : m'.nextId = m.nextId) : m'.Keyed ↔ m.Keyed := by
  have himp {m m' : NetModule} (ht : m'.saved.map tag = m.saved.map tag)
      (hn : m'.nextId = m.nextId) (h : m.Keyed) : m'.Keyed := by
    have hmem {n' : SavedNet} (hn' : n' ∈ m'.saved) : ∃ n ∈ m.saved, tag n = tag n' :=
      List.mem_map.mp (ht ▸ List.mem_map_of_mem hn')
    constructor
    · have hk := congrArg (List.map Prod.snd) ht
      rw [List.map_map, List.map_map] at hk
      exact hk ▸ h.keys
    · have hi := congrArg (List.map Prod.fst) ht
      rw [List.map_map, List.map_map] at hi
      exact hi ▸ h.ids
    · intro n' hn'
      obtain ⟨n, hmn, he⟩ := hmem hn'
      have hs : n.ssid = n'.ssid := congrArg (·.2.1) he
      exact hs ▸ h.named n hmn
    · intro n' hn'
      obtain ⟨n, hmn, he⟩ := hmem hn'
      have hi : n.id = n'.id := congrArg Prod.fst he
      exact hn ▸ hi ▸ h.next n hmn
  exact ⟨himp ht.symm hn.symm, himp ht hn⟩

theorem keyed_persist {m : NetModule} : m.persist.Keyed ↔ m.Keyed := keyed_congr rfl rfl

theorem map_updateFirst {β : Type} {p : SavedNet → Bool} {f : SavedNet → SavedNet}
    {g : SavedNet → β} {ns : List SavedNet} (h : ∀ n, g (f n) = g n) :
    (updateFirst p f ns).map g = ns.map g := by
  induction ns with
  | nil => rfl
  | cons n ns ih =>
    rw [updateFirst]
    split
    · rw [List.map_cons, List.map_cons, h]
    · rw [List.map_cons, List.map_cons, ih]

/-- With unique identifiers, the first network with one is the only one. -/
theorem updateFirst_eq_map {id : Nat} {f : SavedNet → SavedNet} {ns : List SavedNet}
    (h : (ns.map SavedNet.id).Nodup) : updateFirst (fun n => n.id = id) f ns =
      ns.map fun n => if n.id = id then f n else n := by
  induction ns with
  | nil => rfl
  | cons n ns ih =>
    obtain ⟨hn, hns⟩ := List.nodup_cons.mp h
    rw [updateFirst, List.map_cons]
    by_cases hid : n.id = id
    · have hrest : ns.map (fun n => if n.id = id then f n else n) = ns := by
        refine (List.map_congr_left fun n' hn' => ?_).trans (List.map_id ns)
        exact if_neg fun h' => hn (List.mem_map.mpr ⟨n', hn', h'.trans hid.symm⟩)
      rw [if_pos (decide_eq_true hid), if_pos hid, hrest]
    · rw [if_neg (by simpa using hid), if_neg hid, ih hns]

/-! ## The commands -/

variable {m : NetModule}

/-- What does not touch the tag of a network keeps the registry keyed. -/
theorem keyed_updateFirst_iff {p : SavedNet → Bool} {f : SavedNet → SavedNet}
    (hf : ∀ n, tag (f n) = tag n) :
    ({ m with saved := updateFirst p f m.saved } : NetModule).Keyed ↔ m.Keyed :=
  keyed_congr (map_updateFirst hf) rfl

theorem keyed_cmdSavedAuto {args : String} (h : m.Keyed) : (m.cmdSavedAuto args).1.Keyed := by
  unfold cmdSavedAuto
  split
  · split
    · exact h
    · split
      · exact keyed_persist.mpr ((keyed_updateFirst_iff fun _ => by rfl).mpr h)
      · exact h
  · exact h

theorem Keyed.filter {p : SavedNet → Bool} (h : m.Keyed) :
    ({ m with saved := m.saved.filter p } : NetModule).Keyed := by
  refine ⟨?_, ?_, fun n hn => ?_, fun n hn => ?_⟩
  · exact h.keys.sublist (List.filter_sublist.map _)
  · exact h.ids.sublist (List.filter_sublist.map _)
  · exact h.named n (List.mem_filter.mp hn).1
  · exact h.next n (List.mem_filter.mp hn).1

theorem keyed_cmdSavedRemove {args : String} (h : m.Keyed) : (m.cmdSavedRemove args).1.Keyed := by
  unfold cmdSavedRemove
  split
  · exact h
  · dsimp only
    split
    · exact keyed_persist.mpr h.filter
    · exact h

/-- A new network keeps the registry keyed as long as there is an identifier for the one
    after it. -/
theorem keyed_append_iff {n : SavedNet} (h : m.Keyed) (hid : n.id = m.nextId) (hs : n.ssid ≠ "")
    (hnew : ∀ n' ∈ m.saved, (n'.ssid, n'.security) ≠ (n.ssid, n.security)) :
    ({ m with nextId := (m.nextId + 1) % 2 ^ 32, saved := m.saved ++ [n] } : NetModule).Keyed ↔
      m.nextId + 1 < 2 ^ 32 := by
  constructor
  · intro h'
    have hlt : n.id < (m.nextId + 1) % 2 ^ 32 := h'.next n (by simp)
    omega
  · intro hlt
    constructor
    · rw [List.map_append]
      refine h.keys.append (List.nodup_singleton _) ?_
      rw [List.map_singleton, List.disjoint_singleton]
      rintro hm
      obtain ⟨n', hn', he⟩ := List.mem_map.mp hm
      exact hnew n' hn' he
    · rw [List.map_append]
      refine h.ids.append (List.nodup_singleton _) ?_
      rw [List.map_singleton, List.disjoint_singleton]
      rintro hm
      obtain ⟨n', hn', he⟩ := List.mem_map.mp hm
      exact absurd (h.next n' hn') (by omega)
    · intro n' hn'
      rcases List.mem_append.mp hn' with hn' | hn'
      · exact h.named n' hn'
      · rw [List.mem_singleton.mp hn']
        exact hs
    · intro n' hn'
      change n'.id < (m.nextId + 1) % 2 ^ 32
      rw [Nat.mod_eq_of_lt hlt]
      rcases List.mem_append.mp hn' with hn' | hn'
      · exact Nat.lt_succ_of_lt (h.next n' hn')
      · rw [List.mem_singleton.mp hn', hid]
        exact Nat.lt_succ_self _

theorem affords_of_shape {toks : List String}
    (h : ∀ bssid sec bpsk auto hidden, toks = [bssid, sec, bpsk, auto, hidden] → False) :
    m.Affords toks := by
  unfold Affords
  split
  · exact (h _ _ _ _ _ rfl).elim
  · trivial

theorem keyed_cmdSavedAdd_iff {args : String} (h : m.Keyed) :
    (m.cmdSavedAdd args).1.Keyed ↔ m.Affords (splitWhitespace args) := by
  unfold cmdSavedAdd
  generalize splitWhitespace args = toks
  split
  · next bssid sec bpsk auto hidden =>
    dsimp only [Affords]
    split
    · next hempty => exact iff_of_true h fun hne => absurd hempty hne
    · next hne =>
      split
      · next n hfind =>
        -- The network is saved already: only its passphrase and its flags change.
        have hkey : (n.ssid, n.security) = (b64ToString bssid, sec) := by
          simpa using List.find?_some hfind
        refine iff_of_true ?_ fun _ hnew => absurd hkey (hnew n (List.mem_of_find?_eq_some hfind))
        exact keyed_persist.mpr ((keyed_updateFirst_iff fun _ => by rfl).mpr h)
      · next hfind =>
        have hnew : ∀ n ∈ m.saved, (n.ssid, n.security) ≠ (b64ToString bssid, sec) := by
          simpa using hfind
        refine keyed_persist.trans ((keyed_append_iff h rfl hne hnew).trans ?_)
        exact ⟨fun hlt _ _ => hlt, fun hlt => hlt hne hnew⟩
  · next hshape => exact iff_of_true h (affords_of_shape hshape)

/-- A network keeps the registry keyed with new values exactly when they are a name that no
    other network of the security has. -/
theorem keyed_map_iff {n₀ : SavedNet} {f : SavedNet → SavedNet} {k : String × String}
    (h : m.Keyed) (hn₀ : n₀ ∈ m.saved) (hid : ∀ n, (f n).id = n.id)
    (hkey : ∀ n, ((f n).ssid, (f n).security) = k) :
    ({ m with saved := m.saved.map fun n => if n.id = n₀.id then f n else n } : NetModule).Keyed ↔
      k.1 ≠ "" ∧ ∀ n ∈ m.saved, n.id ≠ n₀.id → (n.ssid, n.security) ≠ k := by
  have hmem {n : SavedNet} (hn : n ∈ m.saved) : (if n.id = n₀.id then f n else n) ∈
      m.saved.map fun n => if n.id = n₀.id then f n else n := List.mem_map_of_mem hn
  have hids : (m.saved.map fun n => if n.id = n₀.id then f n else n).map SavedNet.id =
      m.saved.map SavedNet.id := by
    rw [List.map_map]
    refine List.map_congr_left fun n _ => ?_
    by_cases hn : n.id = n₀.id
    · simp [hn, hid]
    · simp [hn]
  have hnodup : m.saved.Nodup := h.ids.of_map _
  constructor
  · intro h'
    have hself := hmem hn₀
    rw [if_pos rfl] at hself
    refine ⟨?_, fun n hn hne he => hne ?_⟩
    · rw [← hkey n₀]
      exact h'.named _ hself
    · -- The network that has the values already and the updated one are found by one key.
      have hother := hmem hn
      rw [if_neg hne] at hother
      have hsame := List.inj_on_of_nodup_map h'.keys hother hself (he.trans (hkey n₀).symm)
      rw [hsame, hid]
  · rintro ⟨hname, hother⟩
    refine ⟨?_, ?_, ?_, ?_⟩
    · rw [List.map_map]
      refine (List.nodup_map_iff_inj_on hnodup).mpr fun a ha b hb hab => ?_
      simp only [Function.comp_apply] at hab
      by_cases hia : a.id = n₀.id <;> by_cases hib : b.id = n₀.id
      · exact List.inj_on_of_nodup_map h.ids ha hb (hia.trans hib.symm)
      · rw [if_pos hia, if_neg hib, hkey] at hab
        exact absurd hab.symm (hother b hb hib)
      · rw [if_neg hia, if_pos hib, hkey] at hab
        exact absurd hab (hother a ha hia)
      · rw [if_neg hia, if_neg hib] at hab
        exact List.inj_on_of_nodup_map h.keys ha hb hab
    · rw [hids]
      exact h.ids
    · intro n' hn'
      obtain ⟨n, hn, rfl⟩ := List.mem_map.mp hn'
      by_cases hin : n.id = n₀.id
      · rw [if_pos hin]
        have hs : (f n).ssid = k.1 := congrArg Prod.fst (hkey n)
        exact hs ▸ hname
      · rw [if_neg hin]
        exact h.named n hn
    · intro n' hn'
      have hi : n'.id ∈ m.saved.map SavedNet.id := hids ▸ List.mem_map_of_mem hn'
      obtain ⟨n, hn, he⟩ := List.mem_map.mp hi
      exact he ▸ h.next n hn

theorem distinguishes_of_shape {toks : List String}
    (h : ∀ idTok bssid sec bpsk auto hidden,
      toks = [idTok, bssid, sec, bpsk, auto, hidden] → False) : m.Distinguishes toks := by
  unfold Distinguishes
  split
  · exact (h _ _ _ _ _ _ rfl).elim
  · trivial

theorem keyed_cmdSavedUpdate_iff {args : String} (h : m.Keyed) :
    (m.cmdSavedUpdate args).1.Keyed ↔ m.Distinguishes (splitWhitespace args) := by
  unfold cmdSavedUpdate
  generalize splitWhitespace args = toks
  split
  · next idTok bssid sec bpsk auto hidden =>
    dsimp only [Distinguishes]
    split
    · next hid =>
      refine iff_of_true h fun id hid' => ?_
      rw [hid] at hid'
      cases hid'
    · next id hid =>
      split
      · next hany =>
        obtain ⟨n, hn, rfl⟩ : ∃ n ∈ m.saved, n.id = id := by simpa using hany
        refine keyed_persist.trans ?_
        rw [updateFirst_eq_map h.ids]
        refine (keyed_map_iff (k := (b64ToString bssid, sec)) h hn (fun _ => by rfl)
          fun _ => by rfl).trans ?_
        constructor
        · rintro hk id hid' -
          rw [hid] at hid'
          obtain rfl := Option.some.inj hid'
          exact hk
        · exact fun hk => hk n.id hid ⟨n, hn, rfl⟩
      · next hany =>
        refine iff_of_true h fun id' hid' hex => ?_
        rw [hid] at hid'
        obtain rfl := Option.some.inj hid'
        exact absurd hex (by simpa using hany)
  · next hshape => exact iff_of_true h (distinguishes_of_shape hshape)

/-- The registry is none of the link status and of the subscribers. -/
theorem keyed_of_saved {st : NetState} {subs : List Pid} (h : m.Keyed) :
    ({ m with state := st, subscribers := subs } : NetModule).Keyed :=
  ⟨h.keys, h.ids, h.named, h.next⟩

/-- A command keeps the registry keyed exactly when it suits it. -/
theorem keyed_onCommand_iff {verb : Verb} {args : String} {c : Ctx} (h : m.Keyed) :
    (m.onCommand verb args c).1.Keyed ↔ m.Suits verb args := by
  cases verb with
  | savedAdd => exact keyed_cmdSavedAdd_iff h
  | savedUpdate => exact keyed_cmdSavedUpdate_iff h
  | savedRemove => exact iff_of_true (keyed_cmdSavedRemove h) trivial
  | savedAutoConnect => exact iff_of_true (keyed_cmdSavedAuto h) trivial
  | reportNetState =>
    refine iff_of_true ?_ trivial
    change (m.cmdReportNetState args c).1.Keyed
    unfold cmdReportNetState
    split
    · exact h
    · dsimp only
      split
      · exact keyed_of_saved h
      · exact h
  | netSubscribe =>
    refine iff_of_true ?_ trivial
    change (m.cmdNetSubscribe args c).1.Keyed
    unfold cmdNetSubscribe
    split
    · exact h
    · dsimp only
      split
      · exact h
      · exact keyed_of_saved h
  | savedCreds =>
    refine iff_of_true ?_ trivial
    change (m.cmdSavedCreds args).1.Keyed
    unfold cmdSavedCreds
    split
    · exact h
    · split <;> exact h
  | autoNetwork =>
    refine iff_of_true ?_ trivial
    change m.cmdAutoNetwork.1.Keyed
    unfold cmdAutoNetwork
    split <;> exact h
  | netStatus => exact iff_of_true h trivial
  | savedList => exact iff_of_true h trivial

/-! ## Any commands -/

/-- The registries that commands meeting a condition lead to, from one without networks. -/
inductive Reaches (Ok : NetModule → Verb → String → Prop) : NetModule → Prop
  | start {m : NetModule} (hs : m.saved = []) (hn : m.nextId = 1) : Reaches Ok m
  | step {m : NetModule} {verb : Verb} {args : String} {c : Ctx} (h : Reaches Ok m)
      (hok : Ok m verb args) : Reaches Ok (m.onCommand verb args c).1

/-- The registry is keyed after any commands each of which suited it. -/
theorem Reaches.keyed (h : Reaches Suits m) : m.Keyed := by
  induction h with
  | start hs hn =>
    constructor <;> simp [hs]
  | step _ hok ih => exact (keyed_onCommand_iff ih).mpr hok

theorem Reaches.keyed_added : (({} : NetModule).onCommand .savedAdd "Y2FmZQ== open cA== 1 0"
    ⟨{}, [], [], false⟩).1.Keyed := by
  have hw : splitWhitespace "Y2FmZQ== open cA== 1 0" = ["Y2FmZQ==", "open", "cA==", "1", "0"] := by
    decide
  refine Reaches.keyed (.step (.start rfl rfl) ?_)
  rw [Suits, hw]
  exact fun _ _ => by decide

/-- Two networks are added, and the second one is then given the name of the first. -/
def renamed : NetModule :=
  let c : Ctx := ⟨{}, [], [], false⟩
  let m := (({} : NetModule).onCommand .savedAdd "Y2FmZQ== sae cA== 1 0" c).1
  let m := (m.onCommand .savedAdd "aG9tZQ== sae cQ== 1 0" c).1
  (m.onCommand .savedUpdate "2 Y2FmZQ== sae cQ== 1 0" c).1

/-- A network is saved twice. -/
theorem saved_twice : ¬ ∀ m : NetModule, Reaches (fun _ _ _ => True) m → m.Keyed := by
  intro h
  have hr : Reaches (fun _ _ _ => True) renamed :=
    .step (.step (.step (.start rfl rfl) trivial) trivial) trivial
  have hk := (h renamed hr).keys
  revert hk
  decide

end NetModule

end Wandr
