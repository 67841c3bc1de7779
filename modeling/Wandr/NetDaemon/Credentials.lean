import Wandr.Arbiter.SavedNets
import Wandr.NetDaemon.Control

/-!
# Credentials

The name and the passphrase of a network cross two sockets in base64, as words of a
line that is taken apart at whitespace at each of them. The empty text is no word.

* `NetDaemon.connectsTo_connect`: what the daemon is made to connect to by the two texts
  in base64;
* `NetModule.connects_iff`: a saved network is joined with what was saved exactly when
  its passphrase is not empty, unless another network has its identifier.
-/

namespace Wandr

open Text

namespace NetDaemon

variable {ssid psk rest : String}

/-! ## The daemon's end -/

/-- A connection is asked for with the words of the arguments relayed. -/
theorem connectsTo_relayed (hn : '\n' ∉ rest.toList) (hw : splitWhitespace rest ≠ []) :
    connectsTo (relayed (wifiConnect rest)) = (connectCreds rest).toOption := by
  have hline : wifiConnect rest = "connect" ++ " " ++ rest := rfl
  have hrel : relayed (wifiConnect rest) = commandLine "connect" rest := by
    have hlast : (wifiConnect rest).toList.getLast? ≠ some '\n' := by
      intro h
      have hmem := List.mem_of_getLast? h
      simp [hline, hn] at hmem
    rw [relayed, if_neg hlast, hline]
    simp [commandLine]
  have hchar : ∃ c ∈ rest.toList, isWhitespace c = false := by
    refine exists_of_words_ne_nil fun h => hw ?_
    rw [splitWhitespace, h, List.map_nil]
  -- Trimming the line leaves the verb, as there is something behind it.
  have htrim : trim (String.ofList ("connect".toList ++ ' ' :: rest.toList)) = String.ofList
      ("connect".toList ++ ' ' :: (rest.toList.reverse.dropWhile isWhitespace).reverse) := by
    obtain ⟨c, hc, hws⟩ := hchar
    obtain ⟨p, cs, hp⟩ := List.append_of_mem hc
    have hfirst : (String.ofList ("connect".toList ++ ' ' :: rest.toList)).toList.dropWhile
        isWhitespace = ("connect".toList ++ ' ' :: p) ++ c :: cs := by
      rw [String.toList_ofList, hp]
      simp [isWhitespace]
    rw [trim, hfirst, dropWhile_reverse_append hws, hp, dropWhile_reverse_append hws]
    simp
  have hargs : connectCreds (trim (String.ofList
      (rest.toList.reverse.dropWhile isWhitespace).reverse)) = connectCreds rest := by
    rw [connectCreds, splitWhitespace_trim, splitWhitespace, String.toList_ofList,
      words_dropWhile_reverse fun _ h => h]
    rfl
  have hreq : handleControlConn (commandLine "connect" rest) = .connect (connectCreds rest) := by
    rw [handleControlConn, takeWhile_commandLine (by decide) hn, htrim, dispatchControl,
      String.toList_ofList, splitOnce_append (by decide)]
    dsimp only
    rw [String.ofList_toList]
    exact congrArg Request.connect hargs
  rw [hrel, connectsTo, hreq]
  cases connectCreds rest <;> rfl

/-- The two texts in base64 name a network, as long as neither is empty. -/
theorem connectCreds_encode (hs : ssid ≠ "") (hw : splitWhitespace rest =
      splitWhitespace (b64Encode (utf8Encode ssid) ++ " " ++ b64Encode (utf8Encode psk))) :
    (connectCreds rest).toOption = if psk = "" then none else some ⟨ssid, psk⟩ := by
  rw [connectCreds, hw, splitWhitespace_cons (isWord_b64Encode hs)]
  by_cases hp : psk = ""
  · rw [if_pos hp, hp]
    rfl
  · rw [if_neg hp, splitWhitespace_word (isWord_b64Encode hp)]
    dsimp only
    rw [b64ToString_b64Encode, b64ToString_b64Encode, if_neg hs]
    rfl

end NetDaemon

namespace NetModule

/-- The identifier under which a network is saved when it is added. -/
def savedUnder (m : NetModule) (ssid sec : String) : Nat :=
  ((m.saved.find? fun n => n.ssid = ssid ∧ n.security = sec).map SavedNet.id).getD m.nextId

/-- A network is shadowed by one of another name or security that is found first under its
    identifier, and that is joined with something else. -/
def Shadowed (m : NetModule) (ssid sec psk : String) : Prop :=
  ∃ n, m.saved.find? (fun n => n.id = m.savedUnder ssid sec) = some n ∧
    (n.ssid, n.security) ≠ (ssid, sec) ∧ (n.ssid, n.psk) ≠ (ssid, psk)

/-- The identifiers are numbers of 32 bits. -/
structure Fits (m : NetModule) : Prop where
  ids : ∀ n ∈ m.saved, n.id < 2 ^ 32
  next : m.nextId < 2 ^ 32

/-- What a network is added with, in the words of the wire. -/
structure Entry where
  ssid : String
  security : String
  psk : String
  auto : String
  hidden : String

namespace Entry

/-- The words are words, and there is a name. -/
structure Valid (e : Entry) : Prop where
  words : ∀ w ∈ [e.ssid, e.security, e.psk, e.auto, e.hidden], IsWord w.toList
  named : b64ToString e.ssid ≠ ""

/-- The arguments of the command that adds the network. -/
def args (e : Entry) : String := s!"{e.ssid} {e.security} {e.psk} {e.auto} {e.hidden}"

/-- What is to be joined. -/
def creds (e : Entry) : WifiCreds := ⟨b64ToString e.ssid, b64ToString e.psk⟩

end Entry

/-- After a network has been added it is saved, and the daemon connects with its
    credentials when it is asked for it by its identifier, and when it is asked for it by
    its name and passphrase. -/
def Connects (m : NetModule) (c : Ctx) (e : Entry) : Prop :=
  let add := parseCommand (commandLine "wifi-saved-add" e.args)
  let r := m.onCommand .savedAdd add.2 c
  let id := m.savedUnder e.creds.ssid e.security
  let saved := parseCommand (commandLine "wifi-connect-saved" (toString id))
  let named := parseCommand (commandLine "wifi-connect"
    (b64Encode (utf8Encode e.creds.ssid) ++ " " ++ b64Encode (utf8Encode e.creds.psk)))
  add.1 = Verb.savedAdd.wire ∧ r.2.2 = .ok s!"id={id}" ∧
    (wifiConnectSaved r.1 saved.2).toOption.bind (NetDaemon.connectsTo ∘ relayed) =
      some e.creds ∧
    NetDaemon.connectsTo (relayed (wifiConnect named.2)) = some e.creds

/-! ## The arbiter's end -/

variable {m : NetModule} {e : Entry}

theorem Entry.Valid.ssid_ne (h : e.Valid) : e.creds.ssid ≠ "" := h.named

theorem Entry.args_eq : e.args = e.ssid ++ " " ++ (e.security ++ " " ++ (e.psk ++ " " ++
    (e.auto ++ " " ++ e.hidden))) := by
  have h : e.args = e.ssid ++ " " ++ e.security ++ " " ++ e.psk ++ " " ++ e.auto ++ " " ++
      e.hidden := rfl
  rw [h]
  simp only [String.append_assoc]

theorem Entry.Valid.splitWhitespace_args (h : e.Valid) :
    splitWhitespace e.args = [e.ssid, e.security, e.psk, e.auto, e.hidden] := by
  rw [args_eq, splitWhitespace_cons (h.words _ (by simp)),
    splitWhitespace_cons (h.words _ (by simp)),
    splitWhitespace_cons (h.words _ (by simp)), splitWhitespace_cons (h.words _ (by simp)),
    splitWhitespace_word (h.words _ (by simp))]

theorem Entry.Valid.notMem_args (h : e.Valid) : '\n' ∉ e.args.toList := by
  have hn {w : String} (hw : w ∈ [e.ssid, e.security, e.psk, e.auto, e.hidden]) :
      '\n' ∉ w.toList := fun hmem => absurd ((h.words w hw).2 _ hmem) (by decide)
  rw [args_eq]
  simp [hn]

/-- An update leaves alone what is found under an identifier, unless it is what is
    updated. -/
theorem find?_updateFirst {p : SavedNet → Bool} {f : SavedNet → SavedNet} {n : SavedNet}
    {ns : List SavedNet} (hf : ∀ n, (f n).id = n.id) (hn : ns.find? p = some n) :
    ∃ n₀, ns.find? (fun n' => n'.id = n.id) = some n₀ ∧
      (updateFirst p f ns).find? (fun n' => n'.id = n.id) = some (if p n₀ then f n₀ else n₀) := by
  induction ns with
  | nil => cases hn
  | cons a ns ih =>
    by_cases ha : p a
    · rw [List.find?_cons_of_pos ha] at hn
      obtain rfl := Option.some.inj hn
      rw [updateFirst, if_pos ha, List.find?_cons_of_pos (by simp),
        List.find?_cons_of_pos (by simp [hf])]
      exact ⟨a, rfl, by rw [if_pos ha]⟩
    · rw [List.find?_cons_of_neg (by simpa using ha)] at hn
      rw [updateFirst, if_neg ha]
      by_cases hid : a.id = n.id
      · rw [List.find?_cons_of_pos (by simpa using hid),
          List.find?_cons_of_pos (by simpa using hid)]
        exact ⟨a, rfl, by rw [if_neg ha]⟩
      · rw [List.find?_cons_of_neg (by simpa using hid),
          List.find?_cons_of_neg (by simpa using hid)]
        exact ih hn

theorem not_shadowed_iff {ssid sec psk : String} {n : SavedNet}
    (hn : m.saved.find? (fun n => n.id = m.savedUnder ssid sec) = some n) :
    ¬ m.Shadowed ssid sec psk ↔
      (n.ssid, n.security) = (ssid, sec) ∨ (n.ssid, n.psk) = (ssid, psk) := by
  rw [Shadowed, hn]
  constructor
  · intro h
    by_contra hne
    exact h ⟨n, rfl, fun hk => hne (.inl hk), fun hc => hne (.inr hc)⟩
  · rintro h ⟨n', hn', hk, hc⟩
    obtain rfl := Option.some.inj hn'
    exact h.elim hk hc

theorem not_shadowed_of_none {ssid sec psk : String}
    (hn : m.saved.find? (fun n => n.id = m.savedUnder ssid sec) = none) :
    ¬ m.Shadowed ssid sec psk := by
  rintro ⟨n, hn', -⟩
  rw [hn] at hn'
  cases hn'

/-- The network that is found under the identifier of the one added is the one added, or
    one that shadowed it before. -/
theorem savedAdd {args : String} {c : Ctx} (h : e.Valid)
    (hargs : splitWhitespace args = splitWhitespace e.args) :
    (m.onCommand .savedAdd args c).2.2 = .ok s!"id={m.savedUnder e.creds.ssid e.security}" ∧
      ∃ n, (m.onCommand .savedAdd args c).1.saved.find?
          (fun n => n.id = m.savedUnder e.creds.ssid e.security) = some n ∧
        ((n.ssid, n.psk) = (e.creds.ssid, e.creds.psk) ↔
          ¬ m.Shadowed e.creds.ssid e.security e.creds.psk) := by
  rw [onCommand, inCtx, cmdSavedAdd, hargs, h.splitWhitespace_args]
  dsimp only
  rw [if_neg h.named]
  split
  · next n hn =>
    have hid : m.savedUnder e.creds.ssid e.security = n.id :=
      congrArg (fun o => (Option.map SavedNet.id o).getD m.nextId) hn
    let f (n : SavedNet) : SavedNet := { n with
      psk := b64ToString e.psk, autoConnect := parseFlag e.auto, hidden := parseFlag e.hidden }
    obtain ⟨n₀, hn₀, hfind⟩ := find?_updateFirst (f := f) (fun _ => rfl) hn
    rw [← hid] at hn₀ hfind
    refine ⟨by rw [hid], _, hfind, ?_⟩
    rw [not_shadowed_iff hn₀]
    by_cases hk : n₀.ssid = b64ToString e.ssid ∧ n₀.security = e.security
    · rw [if_pos (decide_eq_true hk)]
      exact iff_of_true (by rw [hk.1]; rfl) (.inl (by rw [hk.1, hk.2]; rfl))
    · rw [if_neg (by simpa using hk)]
      refine ⟨.inr, fun h => h.resolve_left fun hk' => hk ?_⟩
      exact ⟨congrArg Prod.fst hk', congrArg Prod.snd hk'⟩
  · next hn =>
    have hid : m.savedUnder e.creds.ssid e.security = m.nextId :=
      congrArg (fun o => (Option.map SavedNet.id o).getD m.nextId) hn
    refine ⟨by rw [hid], ?_⟩
    simp only [persist, List.find?_append]
    cases hn₀ : m.saved.find? fun n => n.id = m.savedUnder e.creds.ssid e.security with
    | none =>
      refine ⟨⟨m.nextId, b64ToString e.ssid, e.security, b64ToString e.psk, parseFlag e.auto,
        parseFlag e.hidden⟩, ?_, iff_of_true rfl (not_shadowed_of_none hn₀)⟩
      rw [Option.none_or, List.find?_cons_of_pos (by simp [hid])]
    | some n₀ =>
      -- The name is not saved with this security, so what has the identifier is another network.
      refine ⟨n₀, rfl, ?_⟩
      rw [not_shadowed_iff hn₀]
      refine ⟨.inr, fun h => h.resolve_left fun hk => ?_⟩
      have hnot := List.find?_eq_none.mp hn n₀ (List.mem_of_find?_eq_some hn₀)
      exact hnot (decide_eq_true ⟨congrArg Prod.fst hk, congrArg Prod.snd hk⟩)

theorem isWord_key {k : String} {data : List UInt8} (hk : IsWord k.toList) :
    IsWord (k ++ b64Encode data).toList := by
  rw [String.toList_append]
  refine ⟨List.append_ne_nil_of_left_ne_nil hk.1 _, List.forall_mem_append.mpr ⟨hk.2, ?_⟩⟩
  rw [b64Encode, String.toList_ofList]
  exact isWhitespace_of_mem_b64Chars

/-- The words that credentials consist of. -/
theorem splitWhitespace_creds {n : SavedNet} :
    splitWhitespace (creds n) = ("ssid=" ++ b64Encode (utf8Encode n.ssid)) ::
      ("psk=" ++ b64Encode (utf8Encode n.psk)) :: splitWhitespace ("sec=" ++ n.security) := by
  have hcreds : creds n = "ssid=" ++ b64Encode (utf8Encode n.ssid) ++ " psk=" ++
      b64Encode (utf8Encode n.psk) ++ " sec=" ++ n.security := rfl
  have hp : (" psk=" : String) = " " ++ "psk=" := rfl
  have hs : (" sec=" : String) = " " ++ "sec=" := rfl
  have hassoc : creds n = ("ssid=" ++ b64Encode (utf8Encode n.ssid)) ++ " " ++
      (("psk=" ++ b64Encode (utf8Encode n.psk)) ++ " " ++ ("sec=" ++ n.security)) := by
    rw [hcreds, hp, hs]
    simp only [String.append_assoc]
  rw [hassoc, splitWhitespace_cons (isWord_key (by decide)),
    splitWhitespace_cons (isWord_key (by decide))]

theorem field_ssid {n : SavedNet} : field (creds n) "ssid=" = b64Encode (utf8Encode n.ssid) := by
  have hl : "ssid=".length = 5 := rfl
  rw [field, splitWhitespace_creds]
  simp [hl]

theorem field_psk {n : SavedNet} : field (creds n) "psk=" = b64Encode (utf8Encode n.psk) := by
  have hl : "psk=".length = 4 := rfl
  rw [field, splitWhitespace_creds]
  simp [hl]

/-- What is relayed for a saved network. -/
theorem wifiConnectSaved_eq {n : SavedNet} {id : Nat} {args : String} (hid : id < 2 ^ 32)
    (hargs : splitWhitespace args = [toString id])
    (hn : m.saved.find? (fun n => n.id = id) = some n) :
    (wifiConnectSaved m args).toOption = if n.ssid = "" then none
      else some (wifiConnect
        (b64Encode (utf8Encode n.ssid) ++ " " ++ b64Encode (utf8Encode n.psk))) := by
  have hcreds : (m.cmdSavedCreds args).2 = .ok (creds n) := by
    rw [cmdSavedCreds, hargs]
    dsimp only [List.head?_cons, Option.bind_some]
    rw [parseUnsigned_toString hid]
    dsimp only
    rw [hn]
  rw [wifiConnectSaved, hcreds]
  dsimp only
  rw [field_ssid, field_psk]
  by_cases hs : n.ssid = ""
  · rw [if_pos hs, hs]
    rfl
  · have hne : b64Encode (utf8Encode n.ssid) ≠ "" := fun h =>
      (isWord_b64Encode hs).1 (by rw [h]; rfl)
    rw [if_neg hne, if_neg hs]
    rfl

theorem connectsTo_encode {ssid psk args : String} (hs : ssid ≠ "") (hn : '\n' ∉ args.toList)
    (hargs : splitWhitespace args =
      splitWhitespace (b64Encode (utf8Encode ssid) ++ " " ++ b64Encode (utf8Encode psk))) :
    NetDaemon.connectsTo (relayed (wifiConnect args)) =
      if psk = "" then none else some ⟨ssid, psk⟩ := by
  rw [NetDaemon.connectsTo_relayed hn, NetDaemon.connectCreds_encode hs hargs]
  rw [hargs, splitWhitespace_cons (isWord_b64Encode hs)]
  exact List.cons_ne_nil _ _

theorem notMem_encode {ssid psk : String} :
    '\n' ∉ (b64Encode (utf8Encode ssid) ++ " " ++ b64Encode (utf8Encode psk)).toList := by
  have hn {data : List UInt8} : '\n' ∉ (b64Encode data).toList := by
    rw [b64Encode, String.toList_ofList]
    exact fun h => absurd (isWhitespace_of_mem_b64Chars _ h) (by decide)
  simp [hn]

theorem Fits.savedUnder_lt {ssid sec : String} (h : m.Fits) : m.savedUnder ssid sec < 2 ^ 32 := by
  rw [savedUnder]
  cases hn : m.saved.find? fun n => n.ssid = ssid ∧ n.security = sec with
  | none => exact h.next
  | some n => exact h.ids n (List.mem_of_find?_eq_some hn)

/-- The network found under an identifier is joined with its credentials, if they are not
    empty. -/
theorem connectsSaved_iff {n : SavedNet} {id : Nat} {args : String} {creds : WifiCreds}
    (hs : creds.ssid ≠ "") (hid : id < 2 ^ 32) (hargs : splitWhitespace args = [toString id])
    (hn : m.saved.find? (fun n => n.id = id) = some n) :
    (wifiConnectSaved m args).toOption.bind (NetDaemon.connectsTo ∘ relayed) = some creds ↔
      (n.ssid, n.psk) = (creds.ssid, creds.psk) ∧ creds.psk ≠ "" := by
  rw [wifiConnectSaved_eq hid hargs hn]
  by_cases hne : n.ssid = ""
  · rw [if_pos hne, Option.bind_none]
    refine iff_of_false (fun h => by cases h) fun h => hs ?_
    rw [← hne]
    exact (congrArg Prod.fst h.1).symm
  · have henc : NetDaemon.connectsTo (relayed (wifiConnect (b64Encode (utf8Encode n.ssid) ++ " " ++
        b64Encode (utf8Encode n.psk)))) = if n.psk = "" then none else some ⟨n.ssid, n.psk⟩ :=
      connectsTo_encode hne notMem_encode rfl
    rw [if_neg hne, Option.bind_some, Function.comp_apply, henc]
    obtain ⟨ssid, psk⟩ := creds
    by_cases hp : n.psk = ""
    · rw [if_pos hp]
      refine iff_of_false (fun h => by cases h) ?_
      rintro ⟨heq, hpsk⟩
      exact hpsk ((congrArg Prod.snd heq).symm.trans hp)
    · rw [if_neg hp]
      simp only [Option.some.injEq, WifiCreds.mk.injEq, Prod.mk.injEq]
      exact ⟨fun h => ⟨h, h.2 ▸ hp⟩, fun h => h.1⟩

/-- A saved network is joined with what was saved exactly when its passphrase is not
    empty, unless another network shadows it. -/
theorem connects_iff {c : Ctx} (h : m.Fits) (he : e.Valid) :
    m.Connects c e ↔
      e.creds.psk ≠ "" ∧ ¬ m.Shadowed e.creds.ssid e.security e.creds.psk := by
  have hadd := parseCommand_line (by decide : ' ' ∉ "wifi-saved-add".toList) (by decide)
    he.notMem_args
  obtain ⟨hreply, n, hn, hiff⟩ := savedAdd (c := c) (m := m) he hadd.2
  have hdigits : IsWord (toString (m.savedUnder e.creds.ssid e.security)).toList := isWord_toString
  have hsaved := parseCommand_line (by decide : ' ' ∉ "wifi-connect-saved".toList) (by decide)
    fun hmem => absurd (hdigits.2 _ hmem) (by decide)
  have hnamed := parseCommand_line (by decide : ' ' ∉ "wifi-connect".toList) (by decide)
    (@notMem_encode e.creds.ssid e.creds.psk)
  rw [splitWhitespace_word hdigits] at hsaved
  have hsv := connectsSaved_iff he.ssid_ne h.savedUnder_lt hsaved.2 hn
  have hnm := connectsTo_encode he.ssid_ne notMem_parseCommand hnamed.2
  rw [Connects]
  refine ⟨?_, ?_⟩
  · rintro ⟨-, -, hc, -⟩
    exact ⟨(hsv.mp hc).2, hiff.mp (hsv.mp hc).1⟩
  · rintro ⟨hp, hsh⟩
    refine ⟨hadd.1, hreply, hsv.mpr ⟨hiff.mpr hsh, hp⟩, hnm.trans ?_⟩
    exact if_neg hp

theorem connects_cafe :
    ({} : NetModule).Connects { store := {} } ⟨"Y2FmZQ==", "sae", "cGFzcw==", "1", "0"⟩ := by
  refine (connects_iff ⟨by simp, by decide⟩ ⟨by decide, by decide⟩).mpr ⟨by decide, ?_⟩
  rintro ⟨n, hn, -⟩
  cases hn

/-- An open network is not joined: its empty passphrase is no word of the line relayed. -/
theorem open_not_joined : ¬ ∀ (m : NetModule) (c : Ctx) (e : Entry), m.Fits → e.Valid →
    m.Connects c e := by
  intro h
  have hc := h {} { store := {} } ⟨"Y2FmZQ==", "open", "=", "1", "0"⟩ ⟨by simp, by decide⟩
    ⟨by decide, by decide⟩
  exact absurd hc.2.2.1 (by decide)

end NetModule

end Wandr
