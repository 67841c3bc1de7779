import Mathlib.Data.List.Basic

/-!
# The keys of a call

The two ends of a call encrypt what they send with keys of their own. The ends of a Signal
call derive both from a Diffie-Hellman exchange, of which the public keys come with the
signaling, and from the identity keys of the caller and the callee; the ends of any other
call export them from a DTLS handshake.

* `SignalKeying.derive_mirrored`: what one end sends with, the other receives with, or
  both fail;
* `SignalKeying.exists_of_derive`: the keys are the whole output of the key derivation,
  each byte of it once;
* `keys_mirrored`: both for the ends of a call, however the identity keys are given, and
  the same of a DTLS handshake.
-/

namespace Wandr

/-- An array of bytes. -/
abbrev Bytes (n : Nat) := { bs : List UInt8 // bs.length = n }

/-- The bytes from `a` on and before `b`. -/
def slice (a b : Nat) (bs : List UInt8) : List UInt8 := (bs.take b).drop a

theorem length_slice {a b : Nat} {bs : List UInt8} (hb : b ≤ bs.length) :
    (slice a b bs).length = b - a := by
  simp [slice, hb]

/-- A slice and the one that starts where it ends. -/
theorem slice_append {a b c : Nat} {bs : List UInt8} (hab : a ≤ b) (hbc : b ≤ c) :
    slice a b bs ++ slice b c bs = slice a c bs := by
  have h : bs.take b = (bs.take c).take b := by rw [List.take_take, Nat.min_eq_left hbc]
  have hs : slice a c bs = (bs.take c).drop a := rfl
  rw [hs, ← List.take_append_drop (b - a) ((bs.take c).drop a), List.drop_drop,
    Nat.add_sub_cancel' hab, List.take_drop, Nat.add_sub_cancel' hab, ← h]
  rfl

/-- Which end of a call this is. -/
inductive CallRole
  | offerer
  | answerer
  deriving DecidableEq

/-- How a call fails. -/
inductive CallError
  | codec (text : String)
  | srtp (text : String)
  | rtp (text : String)
  | sdp (text : String)
  | ice (text : String)
  | dtls (text : String)
  | dh (text : String)
  | turn (text : String)
  | proto (text : String)
  | notConnected
  deriving DecidableEq

/-- The key and the salt of one direction. -/
structure SrtpKeys where
  key : List UInt8
  salt : List UInt8
  deriving DecidableEq

/-- The bytes of an identity key alone. A key is serialized with the type in front. -/
def rawIdentityKey (id : List UInt8) : List UInt8 :=
  if id.length = 33 ∧ id[0]? = some 0x05 then id.drop 1 else id

/-- An identity key as it is given: serialized, or its bytes alone. -/
def Identifies (key id : List UInt8) : Prop := id = 0x05 :: key ∨ id = key

theorem Identifies.rawIdentityKey {key id : List UInt8} (h : Identifies key id)
    (hk : key.length = 32) : rawIdentityKey id = key := by
  rcases h with rfl | rfl
  · rw [Wandr.rawIdentityKey, if_pos ⟨by simp [hk], rfl⟩]
    rfl
  · rw [Wandr.rawIdentityKey, if_neg fun h => by omega]

/-- The cryptography the keys rest on: the exchange of X25519, and the expansion of
    HKDF-SHA256 to as many bytes as the keys take. -/
structure Crypto (Secret : Type) where
  publicKey : Secret → Bytes 32
  diffieHellman : Secret → Bytes 32 → Bytes 32
  wasContributory : Bytes 32 → Bool
  expand (salt ikm info : List UInt8) : Option (Bytes 88)

/-- What the derived keys are bound to. -/
def kdfLabel : List UInt8 :=
  "Signal_Calling_20200807_SignallingDH_SRTPKey_KDF".toUTF8.toList

/-- The keys of an end of a Signal call: its secret, the public key of the other end, and
    the identity keys of the caller and the callee. -/
structure SignalKeying (Secret : Type) where
  secret : Secret
  remotePublic : Option (Bytes 32) := none
  callerIdentity : List UInt8
  calleeIdentity : List UInt8

namespace SignalKeying

variable {Secret : Type} (C : Crypto Secret)

/-- The public key of the end. -/
def signalPublicKey (s : SignalKeying Secret) : Bytes 32 := C.publicKey s.secret

/-- Take the public key of the other end from its signaling. -/
def setRemotePublic (s : SignalKeying Secret) (remote : Option (List UInt8)) :
    Except CallError (SignalKeying Secret) :=
  match remote with
  | none => .error (.dh "signaling missing remote public key")
  | some rp =>
    if h : rp.length = 32 then .ok { s with remotePublic := some ⟨rp, h⟩ }
    else .error (.dh "remote public key must be 32 bytes")

/-- What the keys are bound to. -/
def info (s : SignalKeying Secret) : List UInt8 :=
  kdfLabel ++ rawIdentityKey s.callerIdentity ++ rawIdentityKey s.calleeIdentity

/-- The keys to send and to receive with. -/
def derive (s : SignalKeying Secret) (role : CallRole) : Except CallError (SrtpKeys × SrtpKeys) :=
  match s.remotePublic with
  | none => .error (.dh "no remote public key yet")
  | some remote =>
    let shared := C.diffieHellman s.secret remote
    if C.wasContributory shared then
      match C.expand (List.replicate 32 0) shared s.info with
      | none => .error (.dh "hkdf expand")
      | some okm =>
        let offer := { key := slice 0 32 okm, salt := slice 32 44 okm }
        let answer := { key := slice 44 76 okm, salt := slice 76 88 okm }
        match role with
        | .offerer => .ok (offer, answer)
        | .answerer => .ok (answer, offer)
    else .error (.dh "non-contributory DH shared secret (rejected)")

variable {C} {s s' caller callee : SignalKeying Secret} {A B : List UInt8}

theorem remotePublic_of_setRemotePublic {rp : Bytes 32}
    (h : s.setRemotePublic (some rp) = .ok s') : s' = { s with remotePublic := some rp } := by
  rw [setRemotePublic, dif_pos rp.2, Except.ok.injEq] at h
  exact h.symm

/-- The ends of a call derive the same keys, each of them the other way round. -/
theorem derive_mirrored
    (hdh : ∀ a b, C.diffieHellman a (C.publicKey b) = C.diffieHellman b (C.publicKey a))
    (hr : caller.remotePublic = some (callee.signalPublicKey C))
    (hr' : callee.remotePublic = some (caller.signalPublicKey C)) (hi : callee.info = caller.info) :
    callee.derive C .answerer = (caller.derive C .offerer).map Prod.swap := by
  rw [derive, derive, hr, hr', signalPublicKey, signalPublicKey]
  dsimp only
  rw [hdh callee.secret caller.secret, hi]
  split
  · split <;> rfl
  · rfl

/-- The keys are the output of the key derivation, one after the other and of their sizes. -/
theorem exists_of_derive {send recv : SrtpKeys}
    (h : caller.derive C .offerer = .ok (send, recv)) :
    ∃ ikm, ∃ okm : Bytes 88, C.expand (List.replicate 32 0) ikm caller.info = some okm ∧
      send.key ++ (send.salt ++ (recv.key ++ recv.salt)) = okm ∧
      send.key.length = 32 ∧ send.salt.length = 12 ∧
        recv.key.length = 32 ∧ recv.salt.length = 12 := by
  unfold derive at h
  split at h
  · cases h
  · next remote _ =>
    dsimp only at h
    split at h
    · split at h
      · cases h
      · next okm hokm =>
        simp only [Except.ok.injEq, Prod.mk.injEq] at h
        obtain ⟨rfl, rfl⟩ := h
        have hl := okm.2
        refine ⟨_, okm, hokm, ?_, ?_, ?_, ?_, ?_⟩
        · rw [slice_append (by omega) (by omega), slice_append (by omega) (by omega),
            slice_append (by omega) (by omega)]
          rw [slice, List.drop_zero, List.take_of_length_le (by omega)]
        all_goals
          rw [length_slice (by omega)]
    · cases h

end SignalKeying

/-- The keys to send and to receive with, of the bytes that a DTLS handshake exports. The
    answerer is the client of the handshake. -/
def dtlsKeys (role : CallRole) (km : Bytes 60) : SrtpKeys × SrtpKeys :=
  let client := { key := slice 0 16 km, salt := slice 32 46 km }
  let server := { key := slice 16 32 km, salt := slice 46 60 km }
  match role with
  | .answerer => (client, server)
  | .offerer => (server, client)

/-- The ends of a Signal call, each with the public key of the other one, derive the same
    keys, each of them the other way round, or both fail alike. The keys are the output of
    the key derivation, each byte of it once. The keys that the ends of another call take
    from what their handshake exports are the same, each the other way round. -/
theorem keys_mirrored {Secret : Type} {C : Crypto Secret}
    (hdh : ∀ a b, C.diffieHellman a (C.publicKey b) = C.diffieHellman b (C.publicKey a))
    {caller₀ callee₀ caller callee : SignalKeying Secret}
    (hr : caller₀.setRemotePublic (some (callee₀.signalPublicKey C)) = .ok caller)
    (hr' : callee₀.setRemotePublic (some (caller₀.signalPublicKey C)) = .ok callee)
    {A B : List UInt8} (hA : A.length = 32) (hB : B.length = 32)
    (hAa : Identifies A caller₀.callerIdentity) (hBa : Identifies B caller₀.calleeIdentity)
    (hAb : Identifies A callee₀.callerIdentity) (hBb : Identifies B callee₀.calleeIdentity) :
    callee.derive C .answerer = (caller.derive C .offerer).map Prod.swap ∧
      (∀ send recv, caller.derive C .offerer = .ok (send, recv) →
        ∃ ikm, ∃ okm : Bytes 88, C.expand (List.replicate 32 0) ikm caller.info = some okm ∧
          send.key ++ (send.salt ++ (recv.key ++ recv.salt)) = okm ∧
          send.key.length = 32 ∧ send.salt.length = 12 ∧
            recv.key.length = 32 ∧ recv.salt.length = 12) ∧
      ∀ km, dtlsKeys .answerer km = (dtlsKeys .offerer km).swap := by
  obtain rfl := SignalKeying.remotePublic_of_setRemotePublic hr
  obtain rfl := SignalKeying.remotePublic_of_setRemotePublic hr'
  refine ⟨SignalKeying.derive_mirrored hdh rfl rfl ?_, fun send recv => ?_, fun km => rfl⟩
  · simp only [SignalKeying.info, hAa.rawIdentityKey hA, hBa.rawIdentityKey hB,
      hAb.rawIdentityKey hA, hBb.rawIdentityKey hB]
  · exact SignalKeying.exists_of_derive

/-- The exchange of an end whose secret is the bytes from 1 to 32 and one whose secret is
    the bytes from 101 to 132, told apart by a flag, and what is expanded from it when the
    identity keys are the bytes from 0 to 31 and from 32 to 63. -/
def sampleCrypto : Crypto Bool where
  publicKey
    | false =>
      ⟨[7, 163, 124, 188, 20, 32, 147, 200, 183, 85, 220, 27, 16, 232, 108, 180, 38, 55, 74, 209,
         106, 168, 83, 237, 11, 223, 192, 178, 184, 109, 28, 124], rfl⟩
    | true =>
      ⟨[87, 20, 118, 157, 17, 107, 247, 100, 54, 174, 116, 188, 121, 61, 44, 48, 173, 25, 3, 197,
         154, 197, 39, 56, 5, 199, 226, 105, 139, 65, 12, 54], rfl⟩
  diffieHellman
    | false, p => if p.1.head? = some 87 then sampleShared else ⟨List.replicate 32 0, rfl⟩
    | true, p => if p.1.head? = some 7 then sampleShared else ⟨List.replicate 32 0, rfl⟩
  wasContributory shared := shared.1 ≠ List.replicate 32 0
  expand salt ikm info :=
    if salt = List.replicate 32 0 ∧ ikm = sampleShared ∧
        info = kdfLabel ++ (List.range 64).map UInt8.ofNat then
      some ⟨[194, 75, 248, 124, 149, 211, 73, 43, 75, 19, 63, 199, 135, 78, 70, 180, 249, 149, 49,
         112, 145, 17, 22, 174, 53, 57, 61, 158, 53, 163, 216, 210, 70, 87, 158, 40, 158, 147, 8,
         215, 8, 39, 160, 3, 229, 26, 80, 146, 125, 14, 61, 154, 28, 149, 229, 58, 4, 34, 29, 217,
         69, 10, 167, 192, 137, 158, 141, 177, 89, 227, 44, 161, 43, 167, 253, 42, 154, 35, 193,
         137, 249, 32, 251, 8, 22, 247, 109, 57], rfl⟩
    else none
where
  /-- The secret that both arrive at. -/
  sampleShared : Bytes 32 :=
    ⟨[201, 234, 106, 63, 121, 160, 0, 182, 11, 7, 109, 74, 252, 153, 11, 39, 47, 63, 11, 90, 170,
       63, 11, 135, 19, 194, 9, 39, 62, 54, 56, 99], rfl⟩

/-- The ends of a call, of which the caller serializes the identity keys and the callee does
    not. -/
theorem keys_mirrored_sample :
    let caller : SignalKeying Bool := {
      secret := false
      remotePublic := some (sampleCrypto.publicKey true)
      callerIdentity := 0x05 :: (List.range 32).map UInt8.ofNat
      calleeIdentity := 0x05 :: (List.range' 32 32).map UInt8.ofNat }
    let callee : SignalKeying Bool := {
      secret := true
      remotePublic := some (sampleCrypto.publicKey false)
      callerIdentity := (List.range 32).map UInt8.ofNat
      calleeIdentity := (List.range' 32 32).map UInt8.ofNat }
    callee.derive sampleCrypto .answerer = (caller.derive sampleCrypto .offerer).map Prod.swap ∧
      (caller.derive sampleCrypto .offerer).isOk := by
  intro caller callee
  let caller₀ : SignalKeying Bool := { caller with remotePublic := none }
  let callee₀ : SignalKeying Bool := { callee with remotePublic := none }
  have hr : caller₀.setRemotePublic (some (callee₀.signalPublicKey sampleCrypto)) = .ok caller :=
    rfl
  have hr' : callee₀.setRemotePublic (some (caller₀.signalPublicKey sampleCrypto)) = .ok callee :=
    rfl
  have h := keys_mirrored (by decide) hr hr' (A := (List.range 32).map UInt8.ofNat)
    (B := (List.range' 32 32).map UInt8.ofNat) (by simp) (by simp) (.inl rfl) (.inl rfl)
    (.inr rfl) (.inr rfl)
  exact ⟨h.1, by decide +kernel⟩

end Wandr
