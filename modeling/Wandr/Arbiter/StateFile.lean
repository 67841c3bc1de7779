import Wandr.Arbiter.Persist

/-!
# Objects of the state file

What the reader of the state file makes of what its writer wrote, object by object.

* `readApp_appFields` and `readAlarm_alarmFields`: an app and an alarm are read back, where
  the app-id needs no escape, its numbers fit a signed integer, and it is not called like
  the key of a field that then reads as another one;
* `objects_objectsJson`: the objects of an array are found, where no text in them closes one;
* `arrayStart_joinChar`: an array is found behind the first occurrence of its key.
-/

namespace Wandr

open Text

/-! ## Fields -/

/-- A text that is written as it is. -/
def Unescaped (s : String) : Prop := '"' ∉ s.toList ∧ '\\' ∉ s.toList

theorem jsonEscape_eq {s : String} (h : Unescaped s) : jsonEscape s = s.toList := by
  obtain ⟨hq, hb⟩ := h
  unfold jsonEscape
  generalize s.toList = cs at hq hb ⊢
  induction cs with
  | nil => rfl
  | cons c cs ih =>
    obtain ⟨hqc, hq⟩ : '"' ≠ c ∧ '"' ∉ cs := by simpa using hq
    obtain ⟨hbc, hb⟩ : '\\' ≠ c ∧ '\\' ∉ cs := by simpa using hb
    rw [List.flatMap_cons, if_neg (Ne.symm hbc), if_neg (Ne.symm hqc), ih hq hb]
    rfl

theorem pickStr_eq {entry : List Char} {key : String} : pickStr entry key =
    ((afterFirst (needle key) entry).bind (afterFirst [':'])).bind
      fun r => quotedText (r.dropWhile isWhitespace) := by
  unfold pickStr afterColon
  rcases afterFirst (needle key) entry with _ | r
  · rfl
  · change ((afterFirst [':'] r).map _).bind _ = (afterFirst [':'] r).bind _
    rw [Option.bind_map]
    rfl

theorem pickInt_eq {entry : List Char} {key : String} : pickInt entry key =
    ((afterFirst (needle key) entry).bind (afterFirst [':'])).bind fun r =>
      parseSigned 64 (String.ofList ((r.dropWhile isWhitespace).takeWhile isNumeric)) := by
  unfold pickInt afterColon
  rcases afterFirst (needle key) entry with _ | r
  · rfl
  · change ((afterFirst [':'] r).map _).bind _ = (afterFirst [':'] r).bind _
    rw [Option.bind_map]
    rfl

theorem parseTopString_eq {body : List Char} {key : String} (hk : ':' ∉ key.toList) :
    parseTopString body key =
      ((afterFirst (needle key) body).bind (afterFirst [':'])).bind fun r =>
        let rest := r.dropWhile isWhitespace
        if "null".toList.isPrefixOf rest then none else quotedText rest := by
  have hc : ':' ∉ needle key := by simpa [needle] using hk
  rw [← fromFirst_bind hc]
  unfold parseTopString afterColon
  rcases fromFirst (needle key) body with _ | r
  · rfl
  · change ((afterFirst [':'] r).map _).bind _ = (afterFirst [':'] r).bind _
    rw [Option.bind_map]
    rfl

theorem quotedText_append {v cs : List Char} (h : '"' ∉ v) :
    quotedText ('"' :: (v ++ '"' :: cs)) = some (String.ofList v) := by
  rw [quotedText, beforeFirst_append h, Option.map_some]

theorem dropWhile_isWhitespace {cs : List Char}
    (h : ∀ c, cs.head? = some c → isWhitespace c = false) :
    (' ' :: cs).dropWhile isWhitespace = cs := by
  cases cs with
  | nil => rfl
  | cons c cs =>
    have hc : ¬ isWhitespace c := by simp [h c rfl]
    rw [List.dropWhile_cons_of_pos rfl, List.dropWhile_cons_of_neg hc]

/-- No decimal digit is whitespace. -/
theorem isWhitespace_of_isNumeric {c : Char} (h : isNumeric c) : isWhitespace c = false := by
  rcases Bool.or_eq_true_iff.mp h with hd | hc
  · have hb : 48 ≤ c.toNat ∧ c.toNat ≤ 57 := by
      simpa [Char.isDigit, UInt32.le_iff_toNat_le] using hd
    simp only [isWhitespace, Bool.or_eq_false_iff, Bool.and_eq_false_iff, decide_eq_false_iff_not,
      beq_eq_false_iff_ne]
    omega
  · rw [of_decide_eq_true hc]
    rfl

/-- A number starts with one of its characters. -/
theorem isNumeric_head {i : Int} {c : Char} {cs : List Char}
    (h : ((toString i).toList ++ cs).head? = some c) : isNumeric c := by
  rcases hs : (toString i).toList with _ | ⟨d, ds⟩
  · exact absurd hs toList_toString_ne_nil
  · rw [hs] at h
    obtain rfl : d = c := Option.some.inj h
    exact isNumeric_of_mem_toString (hs ▸ List.mem_cons_self)

theorem dropWhile_toString {i : Int} {cs : List Char} :
    (' ' :: ((toString i).toList ++ cs)).dropWhile isWhitespace = (toString i).toList ++ cs :=
  dropWhile_isWhitespace fun _ hc => isWhitespace_of_isNumeric (isNumeric_head hc)

/-- The digits of a number are read up to what is none of them. -/
theorem takeWhile_isNumeric {i : Int} {cs : List Char}
    (h : ∀ d, cs.head? = some d → isNumeric d = false) :
    ((' ' :: ((toString i).toList ++ cs)).dropWhile isWhitespace).takeWhile isNumeric =
      (toString i).toList := by
  have hnum : ∀ d ∈ (toString i).toList, isNumeric d := fun d => isNumeric_of_mem_toString
  rw [dropWhile_toString]
  cases cs with
  | nil => rw [List.takeWhile_append_of_pos hnum, List.takeWhile_nil, List.append_nil]
  | cons d cs => exact takeWhile_append hnum (h d rfl)

/-- A number is no text between quotes. -/
theorem quotedText_toString {i : Int} {cs : List Char} :
    quotedText ((' ' :: ((toString i).toList ++ cs)).dropWhile isWhitespace) = none := by
  rw [dropWhile_toString]
  rcases hs : (toString i).toList ++ cs with _ | ⟨d, ds⟩
  · rfl
  · have hd : isNumeric d := isNumeric_head (congrArg List.head? hs)
    unfold quotedText
    split
    · next hq =>
      obtain ⟨rfl, -⟩ := List.cons.inj hq
      cases hd
    · rfl

/-- A number among the fields, with what comes after it. -/
def numberJson (i : Int) (t : List Char) : List Char := ':' :: ' ' :: ((toString i).toList ++ t)

section

variable {p : List Char} {pre post ps : List (List Char)} {key : String}
  (hk : '"' ∉ key.toList) (h : ∀ r ∈ p :: pre, '"' ∉ r) (hn : key.toList ∉ pre)

include hk h hn

/-- What is read for a key that is followed by a text. -/
theorem pickStr_text {v w : List Char} (hv : '"' ∉ v) :
    pickStr (joinChar '"' (p :: (pre ++ key.toList :: [':', ' '] :: v :: w :: ps))) key =
      some (String.ofList v) := by
  have hkey : (afterFirst (needle key)
      (joinChar '"' (p :: (pre ++ key.toList ::
        ([] ++ ([] ++ ':' :: [' ']) :: v :: w :: ps))))).bind
      (afterFirst [':']) = some (joinChar '"' ([' '] :: v :: w :: ps)) :=
    afterFirst_key hk h hn (by decide) (by simp) (by simp)
  rw [List.nil_append, List.nil_append] at hkey
  rw [pickStr_eq, hkey, Option.bind_some, joinChar, joinChar, List.singleton_append,
    dropWhile_isWhitespace, quotedText_append hv]
  rintro c ⟨⟩
  rfl

variable {i : Int} {t : List Char} (hpost : ∀ r ∈ post, ':' ∉ r)

include hpost

/-- What follows the colon of a key that a number follows, the first one after it. -/
theorem afterFirst_number : (afterFirst (needle key)
      (joinChar '"' (p :: (pre ++ key.toList :: (post ++ numberJson i t :: ps))))).bind
      (afterFirst [':']) = some (' ' :: ((toString i).toList ++ joinChar '"' (t :: ps))) := by
  have hkey : (afterFirst (needle key) (joinChar '"'
      (p :: (pre ++ key.toList :: (post ++ ([] ++ numberJson i t) :: ps))))).bind
        (afterFirst [':']) =
      some (joinChar '"' ((' ' :: ((toString i).toList ++ t)) :: ps)) :=
    afterFirst_key hk h hn (by decide) hpost (by simp)
  have hj : joinChar '"' ((' ' :: ((toString i).toList ++ t)) :: ps) =
      ' ' :: ((toString i).toList ++ joinChar '"' (t :: ps)) :=
    joinChar_append_cons (p := ' ' :: (toString i).toList)
  rwa [List.nil_append, hj] at hkey

theorem pickInt_number (hi : -2 ^ 63 ≤ i ∧ i < 2 ^ 63)
    (ht : ∀ d, (joinChar '"' (t :: ps)).head? = some d → isNumeric d = false) :
    pickInt (joinChar '"' (p :: (pre ++ key.toList :: (post ++ numberJson i t :: ps)))) key =
      some i := by
  rw [pickInt_eq, afterFirst_number hk h hn hpost, Option.bind_some, takeWhile_isNumeric ht]
  exact parseSigned_toString hi.1 hi.2

/-- Such a key is not followed by a text. -/
theorem pickStr_number :
    pickStr (joinChar '"' (p :: (pre ++ key.toList :: (post ++ numberJson i t :: ps)))) key =
      none := by
  rw [pickStr_eq, afterFirst_number hk h hn hpost, Option.bind_some, quotedText_toString]

end

/-! ## Objects -/

/-- An object of an array, on a line of its own. -/
def objectJson (fields : List Char) : List Char :=
  ['\n', ' ', ' ', ' ', ' ', '\x7b'] ++ (fields ++ ['\x7d'])

/-- The fields of an object that starts with the app it is about. -/
def fieldsJson (appId : String) (ps : List (List Char)) : List Char :=
  joinChar '"' ([] :: "app_id".toList :: [':', ' '] :: appId.toList :: [',', ' '] :: ps)

theorem notMem_toString {c : Char} {i : Int} (hc : isNumeric c = false) :
    c ∉ (toString i).toList := by
  intro h
  rw [isNumeric_of_mem_toString h] at hc
  cases hc

theorem notMem_numberJson {c : Char} {i : Int} {t : List Char} (hn : isNumeric c = false)
    (hc : c ≠ ':') (hs : c ≠ ' ') (ht : c ∉ t) : c ∉ numberJson i t := by
  have hi : c ∉ (toString i).toList := notMem_toString hn
  rw [numberJson, List.mem_cons, List.mem_cons, List.mem_append]
  rintro (h | h | h | h)
  · exact hc h
  · exact hs h
  · exact hi h
  · exact ht h

/-- A key of a number: none of the pieces that come before the first number. -/
def IsKey (key : String) : Prop :=
  '"' ∉ key.toList ∧ ':' ∉ key.toList ∧ ',' ∉ key.toList ∧ key ≠ "app_id"

section

variable {appId key : String} {ps : List (List Char)}

theorem pickStr_app_id (h : Unescaped appId) :
    pickStr (fieldsJson appId ps) "app_id" = some appId := by
  have hs : pickStr (joinChar '"' ([] :: ([] ++ "app_id".toList :: [':', ' '] :: appId.toList ::
      [',', ' '] :: ps))) "app_id" = some (String.ofList appId.toList) :=
    pickStr_text (by simp) (by simp) (by simp) h.1
  rwa [String.ofList_toList] at hs

theorem IsKey.notMem (h : IsKey key) : key.toList ∉ ["app_id".toList, [':', ' '], [',', ' ']] := by
  obtain ⟨-, hc, hm, hid⟩ := h
  intro hk
  rcases List.mem_cons.mp hk with hk | hk
  · exact hid (String.toList_inj.mp hk)
  rcases List.mem_cons.mp hk with hk | hk
  · rw [hk] at hc
    exact hc List.mem_cons_self
  · rw [List.mem_singleton.mp hk] at hm
    exact hm List.mem_cons_self

variable {pre : List (List Char)} {i : Int} {t : List Char}
  (ht : ∀ d, (joinChar '"' (t :: ps)).head? = some d → isNumeric d = false)

include ht

/-- What is read for the key of a number. -/
theorem pickInt_field (h : Unescaped appId) (hk : IsKey key) (hid : appId ≠ key)
    (hq : ∀ r ∈ pre, '"' ∉ r) (hpre : key.toList ∉ pre) (hi : -2 ^ 63 ≤ i ∧ i < 2 ^ 63) :
    pickInt (fieldsJson appId (pre ++ key.toList :: numberJson i t :: ps)) key = some i := by
  obtain ⟨ha, hc, hm⟩ : key.toList ≠ "app_id".toList ∧ key.toList ≠ [':', ' '] ∧
    key.toList ≠ [',', ' '] := by simpa using hk.notMem
  have hid' : key.toList ≠ appId.toList := fun h' => hid (String.toList_inj.mp h').symm
  have hf : fieldsJson appId (pre ++ key.toList :: numberJson i t :: ps) =
      joinChar '"' ([] :: (("app_id".toList :: [':', ' '] :: appId.toList :: [',', ' '] :: pre) ++
        key.toList :: ([] ++ numberJson i t :: ps))) := rfl
  rw [hf]
  refine pickInt_number hk.1 ?_ ?_ (by simp) hi ht
  · simpa [h.1] using hq
  · simpa using ⟨ha, hc, hid', hm, hpre⟩

/-- What is read for the key of a number, of an app that is called like the key: the
    first number. -/
theorem pickInt_called {first : List Char} (hk : IsKey key) (hf : ':' ∉ first)
    (hi : -2 ^ 63 ≤ i ∧ i < 2 ^ 63) :
    pickInt (fieldsJson key (first :: numberJson i t :: ps)) key = some i := by
  obtain ⟨ha, hc, -⟩ : key.toList ≠ "app_id".toList ∧ key.toList ≠ [':', ' '] ∧
    key.toList ≠ [',', ' '] := by simpa using hk.notMem
  have hf' : fieldsJson key (first :: numberJson i t :: ps) =
      joinChar '"' ([] :: (["app_id".toList, [':', ' ']] ++ key.toList ::
        ([[',', ' '], first] ++ numberJson i t :: ps))) := rfl
  rw [hf']
  refine pickInt_number hk.1 (by simp) ?_ ?_ hi ht
  · simpa using ⟨ha, hc⟩
  · simpa using hf

end

/-! ## Apps -/

/-- The fields of an app. -/
def appFields (a : AppState) : List Char :=
  fieldsJson a.appId ["pid".toList, numberJson a.pid [',', ' '], "launched_at_unix".toList,
    numberJson a.launchedAt []]

theorem appJson_eq {a : AppState} (h : Unescaped a.appId) :
    appJson a = objectJson (appFields a) := by
  have ht : toString (a.launchedAt : Int) = toString a.launchedAt := rfl
  unfold appJson
  rw [jsonEscape_eq h]
  simp [appFields, fieldsJson, numberJson, objectJson, joinChar, ht]

/-- A process number of the system. -/
def IsI32 (i : Int) : Prop := -2 ^ 31 ≤ i ∧ i < 2 ^ 31

theorem asI32_eq {i : Int} (h : IsI32 i) : asI32 i = i := by
  obtain ⟨hl, hu⟩ := h
  rw [asI32]
  exact Int.bmod_eq_of_le (by omega) (by omega)

theorem IsI32.isI64 {i : Int} (h : IsI32 i) : -2 ^ 63 ≤ i ∧ i < 2 ^ 63 := by
  obtain ⟨hl, hu⟩ := h
  omega

theorem asU64_eq {n : Nat} (h : n < 2 ^ 63) : asU64 n = n := by
  rw [asU64]
  omega

theorem isI64_of_lt {n : Nat} (h : n < 2 ^ 63) : -2 ^ 63 ≤ (n : Int) ∧ (n : Int) < 2 ^ 63 := by
  omega

section

variable {a : AppState}

/-- The process is found, even if the app is called like the key. -/
theorem pickInt_pid (h : Unescaped a.appId) (hp : IsI32 a.pid) :
    pickInt (appFields a) "pid" = some a.pid := by
  have hf : appFields a = fieldsJson a.appId ([] ++ "pid".toList :: numberJson a.pid [',', ' '] ::
    ["launched_at_unix".toList, numberJson a.launchedAt []]) := rfl
  rw [hf]
  by_cases hid : a.appId = "pid"
  · rw [hid]
    exact pickInt_called (by rintro d ⟨⟩; rfl) (by simp [IsKey]) (by simp) hp.isI64
  · exact pickInt_field (by rintro d ⟨⟩; rfl) h (by simp [IsKey]) hid (by simp) (by simp) hp.isI64

/-- The launch second is found; of an app called like the key, the process instead. -/
theorem pickInt_launched (h : Unescaped a.appId) (hp : IsI32 a.pid) (ht : a.launchedAt < 2 ^ 63)
    (hid : a.appId = "launched_at_unix" → (a.launchedAt : Int) = a.pid) :
    pickInt (appFields a) "launched_at_unix" = some (a.launchedAt : Int) := by
  have hf : appFields a = fieldsJson a.appId (["pid".toList, numberJson a.pid [',', ' ']] ++
    "launched_at_unix".toList :: numberJson a.launchedAt [] :: []) := rfl
  rw [hf]
  by_cases hid' : a.appId = "launched_at_unix"
  · rw [hid', hid hid']
    exact pickInt_called (by rintro d ⟨⟩; rfl) (by simp [IsKey]) (by simp) hp.isI64
  · have hq : '"' ∉ numberJson a.pid [',', ' '] :=
      notMem_numberJson rfl (by simp) (by simp) (by simp)
    have hpid : "launched_at_unix".toList ∉ ["pid".toList, numberJson a.pid [',', ' ']] := by
      simp [numberJson]
    refine pickInt_field ?_ h (by simp [IsKey]) hid' (by simpa using hq) hpid (isI64_of_lt ht)
    rintro d ⟨⟩

/-- An app is read back, if its process number is positive. -/
theorem readApp_appFields (h : Unescaped a.appId) (hne : a.appId ≠ "") (hp : IsI32 a.pid)
    (ht : a.launchedAt < 2 ^ 63)
    (hid : a.appId = "launched_at_unix" → (a.launchedAt : Int) = a.pid) :
    readApp (appFields a) = if 0 < a.pid then some (a.appId, a.pid, a.launchedAt) else none := by
  have hs : pickStr (appFields a) "app_id" = some a.appId := pickStr_app_id h
  rw [readApp, hs, pickInt_pid h hp, pickInt_launched h hp ht hid]
  simp only [Option.getD_some, asI32_eq hp, asU64_eq ht, ne_eq, hne, not_false_eq_true, true_and]

end

/-! ## Alarms -/

/-- The fields of an alarm. -/
def alarmFields (a : Alarm) : List Char :=
  fieldsJson a.appId ["alarm_id".toList, numberJson a.alarmId [',', ' '], "next_fire_ms".toList,
    numberJson a.nextFireMs [',', ' '], "repeat_ms".toList, numberJson a.repeatMs [',', ' '],
    "wake_kind".toList, [':', ' '], a.wakeKind.asWire.toList, []]

theorem alarmJson_eq {a : Alarm} (h : Unescaped a.appId) :
    alarmJson a = objectJson (alarmFields a) := by
  have ht {n : Nat} : toString (n : Int) = toString n := rfl
  unfold alarmJson
  rw [jsonEscape_eq h]
  simp [alarmFields, fieldsJson, numberJson, objectJson, joinChar, ht]

section

variable {a : Alarm}

theorem pickInt_alarm_id (h : Unescaped a.appId) (hn : a.alarmId < 2 ^ 63) :
    pickInt (alarmFields a) "alarm_id" = some (a.alarmId : Int) := by
  have hf : alarmFields a = fieldsJson a.appId ([] ++ "alarm_id".toList ::
    numberJson a.alarmId [',', ' '] :: ["next_fire_ms".toList, numberJson a.nextFireMs [',', ' '],
      "repeat_ms".toList, numberJson a.repeatMs [',', ' '], "wake_kind".toList, [':', ' '],
      a.wakeKind.asWire.toList, []]) := rfl
  rw [hf]
  by_cases hid : a.appId = "alarm_id"
  · rw [hid]
    exact pickInt_called (by rintro d ⟨⟩; rfl) (by simp [IsKey]) (by simp) (isI64_of_lt hn)
  · exact pickInt_field (by rintro d ⟨⟩; rfl) h (by simp [IsKey]) hid (by simp) (by simp)
      (isI64_of_lt hn)

theorem quote_notMem_numberJson {i : Int} : '"' ∉ numberJson i [',', ' '] :=
  notMem_numberJson rfl (by simp) (by simp) (by simp)

theorem pickInt_next_fire (h : Unescaped a.appId) (hn : a.nextFireMs < 2 ^ 63)
    (hid : a.appId = "next_fire_ms" → a.nextFireMs = a.alarmId) :
    pickInt (alarmFields a) "next_fire_ms" = some (a.nextFireMs : Int) := by
  have hf : alarmFields a = fieldsJson a.appId (["alarm_id".toList,
    numberJson a.alarmId [',', ' ']] ++ "next_fire_ms".toList ::
      numberJson a.nextFireMs [',', ' '] :: ["repeat_ms".toList, numberJson a.repeatMs [',', ' '],
        "wake_kind".toList, [':', ' '], a.wakeKind.asWire.toList, []]) := rfl
  rw [hf]
  by_cases hid' : a.appId = "next_fire_ms"
  · rw [hid', hid hid']
    exact pickInt_called (by rintro d ⟨⟩; rfl) (by simp [IsKey]) (by simp)
      (isI64_of_lt (hid hid' ▸ hn))
  · have hpre : "next_fire_ms".toList ∉ ["alarm_id".toList, numberJson a.alarmId [',', ' ']] := by
      simp [numberJson]
    exact pickInt_field (by rintro d ⟨⟩; rfl) h (by simp [IsKey]) hid'
      (by simpa using quote_notMem_numberJson) hpre (isI64_of_lt hn)

theorem pickInt_repeat (h : Unescaped a.appId) (hn : a.repeatMs < 2 ^ 63)
    (hid : a.appId = "repeat_ms" → a.repeatMs = a.alarmId) :
    pickInt (alarmFields a) "repeat_ms" = some (a.repeatMs : Int) := by
  have hf : alarmFields a = fieldsJson a.appId (["alarm_id".toList,
    numberJson a.alarmId [',', ' '], "next_fire_ms".toList, numberJson a.nextFireMs [',', ' ']] ++
      "repeat_ms".toList :: numberJson a.repeatMs [',', ' '] ::
        ["wake_kind".toList, [':', ' '], a.wakeKind.asWire.toList, []]) := rfl
  rw [hf]
  by_cases hid' : a.appId = "repeat_ms"
  · rw [hid', hid hid']
    exact pickInt_called (by rintro d ⟨⟩; rfl) (by simp [IsKey]) (by simp)
      (isI64_of_lt (hid hid' ▸ hn))
  · have hpre : "repeat_ms".toList ∉ ["alarm_id".toList, numberJson a.alarmId [',', ' '],
        "next_fire_ms".toList, numberJson a.nextFireMs [',', ' ']] := by
      simp [numberJson]
    exact pickInt_field (by rintro d ⟨⟩; rfl) h (by simp [IsKey]) hid'
      (by simpa using ⟨quote_notMem_numberJson, quote_notMem_numberJson⟩) hpre (isI64_of_lt hn)

theorem quote_notMem_asWire {k : LaunchKind} : '"' ∉ k.asWire.toList := by
  cases k <;> simp [LaunchKind.asWire]

/-- The kind is found, but for an owner that is called like the key: there the first
    number of the alarm is no text, which reads as headless. -/
theorem fromWire_pickStr (h : Unescaped a.appId)
    (hid : a.appId = "wake_kind" → a.wakeKind = .headless) :
    LaunchKind.fromWire ((pickStr (alarmFields a) "wake_kind").getD "") = a.wakeKind := by
  by_cases hid' : a.appId = "wake_kind"
  · have hf : alarmFields a = joinChar '"' ([] :: (["app_id".toList, [':', ' ']] ++
        "wake_kind".toList :: ([[',', ' '], "alarm_id".toList] ++
          numberJson a.alarmId [',', ' '] :: ["next_fire_ms".toList,
            numberJson a.nextFireMs [',', ' '], "repeat_ms".toList,
            numberJson a.repeatMs [',', ' '], "wake_kind".toList, [':', ' '],
            a.wakeKind.asWire.toList, []]))) := by
      simp [alarmFields, fieldsJson, hid']
    rw [hf, hid hid', pickStr_number (by simp) (by simp) (by simp) (by simp)]
    rfl
  · have hne : "wake_kind".toList ≠ a.appId.toList := fun h' => hid' (String.toList_inj.mp h').symm
    have hf : alarmFields a = joinChar '"' ([] :: (["app_id".toList, [':', ' '], a.appId.toList,
        [',', ' '], "alarm_id".toList, numberJson a.alarmId [',', ' '], "next_fire_ms".toList,
        numberJson a.nextFireMs [',', ' '], "repeat_ms".toList, numberJson a.repeatMs [',', ' ']] ++
          "wake_kind".toList :: [':', ' '] :: a.wakeKind.asWire.toList :: [] :: [])) := rfl
    rw [hf, pickStr_text (by simp) ?_ ?_ quote_notMem_asWire, String.ofList_toList]
    · exact LaunchKind.fromWire_asWire a.wakeKind
    · simp [h.1, quote_notMem_numberJson]
    · simpa [numberJson] using hne

/-- An alarm is read back, less the mark that it waits for its owner. -/
theorem readAlarm_alarmFields (h : Unescaped a.appId) (hne : a.appId ≠ "")
    (hn : a.alarmId < 2 ^ 63 ∧ a.nextFireMs < 2 ^ 63 ∧ a.repeatMs < 2 ^ 63)
    (hf : a.appId = "next_fire_ms" → a.nextFireMs = a.alarmId)
    (hr : a.appId = "repeat_ms" → a.repeatMs = a.alarmId)
    (hw : a.appId = "wake_kind" → a.wakeKind = .headless) :
    readAlarm (alarmFields a) = some { a with pendingDeliver := false } := by
  have hs : pickStr (alarmFields a) "app_id" = some a.appId := pickStr_app_id h
  rw [readAlarm, hs, pickInt_alarm_id h hn.1, pickInt_next_fire h hn.2.1 hf,
    pickInt_repeat h hn.2.2 hr, fromWire_pickStr h hw]
  simp only [Option.getD_some, asU64_eq hn.1, asU64_eq hn.2.1, asU64_eq hn.2.2, hne, if_false]

end

/-! ## Arrays -/

/-- A stretch up to a closing brace is the object that starts at its first opening one. -/
theorem objects_append {q e cs : List Char} (hq : '\x7d' ∉ q) (hq' : '\x7b' ∉ q)
    (he : '\x7d' ∉ e) : objects (q ++ '\x7b' :: (e ++ '\x7d' :: cs)) = e :: objects cs := by
  have hl : q ++ '\x7b' :: (e ++ '\x7d' :: cs) = (q ++ '\x7b' :: e) ++ '\x7d' :: cs := by simp
  have hqe : '\x7d' ∉ q ++ '\x7b' :: e := by simp [hq, he]
  rw [objects, hl, splitChar_append hqe, List.filterMap_cons, afterFirst_singleton hq']
  rfl

/-- The objects of an array, after something that is none. -/
theorem objects_intersperse {q e : List Char} {es : List (List Char)} (hq : '\x7d' ∉ q)
    (hq' : '\x7b' ∉ q) (he : ∀ d ∈ e :: es, '\x7d' ∉ d) :
    objects (q ++ ((((e :: es).map objectJson).intersperse ", ".toList).flatten ++
      "\n  ".toList)) = e :: es := by
  induction es generalizing q e with
  | nil =>
    have hl : q ++ (((([e]).map objectJson).intersperse ", ".toList).flatten ++ "\n  ".toList) =
        (q ++ "\n    ".toList) ++ '\x7b' :: (e ++ '\x7d' :: "\n  ".toList) := by
      simp [objectJson]
    rw [hl, objects_append (by simpa using hq) (by simpa using hq') (he e List.mem_cons_self)]
    rfl
  | cons d es ih =>
    have hl : q ++ ((((e :: d :: es).map objectJson).intersperse ", ".toList).flatten ++
        "\n  ".toList) = (q ++ "\n    ".toList) ++ '\x7b' :: (e ++ '\x7d' :: (", ".toList ++
          ((((d :: es).map objectJson).intersperse ", ".toList).flatten ++ "\n  ".toList))) := by
      simp [objectJson]
    rw [hl, objects_append (by simpa using hq) (by simpa using hq') (he e List.mem_cons_self),
      ih (by simp) (by simp) fun d' hd => he d' (List.mem_cons_of_mem _ hd)]

/-- The objects of an array are found, if no text in them closes one. -/
theorem objects_objectsJson {es : List (List Char)} (h : ∀ e ∈ es, '\x7d' ∉ e) :
    objects (objectsJson (es.map objectJson)) = es := by
  cases es with
  | nil => rfl
  | cons e es => exact objects_intersperse (q := []) (by simp) (by simp) h

/-- An array is closed where it ends, if no text in it closes it before. -/
theorem bracket_notMem_objectsJson {es : List (List Char)} (h : ∀ e ∈ es, ']' ∉ e) :
    ']' ∉ objectsJson (es.map objectJson) := by
  have hi : ']' ∉ ((es.map objectJson).intersperse ", ".toList).flatten := by
    induction es with
    | nil => simp
    | cons e es ih =>
      have he : ']' ∉ e := h e List.mem_cons_self
      have ih := ih fun d hd => h d (List.mem_cons_of_mem _ hd)
      cases es with
      | nil => simpa [objectJson] using he
      | cons d es => simpa [objectJson, he] using ih
  rw [objectsJson, List.mem_append]
  rintro (h | h)
  · exact hi h
  · split at h <;> simp at h

/-- No piece after the key opens an array. -/
def Unopened (key : String) (ps : List (List Char)) : Prop :=
  ps.Pairwise fun a b => a = key.toList → '[' ∉ b

/-- An array is found behind the first occurrence of its key, if it starts with the next
    opening bracket. -/
theorem arrayStart_joinChar {key : String} {p x v : List Char} {pre ps : List (List Char)}
    (hk : '"' ∉ key.toList) (hb : '[' ∉ key.toList) (h : ∀ r ∈ p :: pre, '"' ∉ r)
    (hp : Unopened key pre) (hx : '[' ∉ x) :
    arrayStart (joinChar '"' (p :: (pre ++ key.toList :: (x ++ '[' :: v) :: ps))) key =
      some (joinChar '"' (v :: ps)) := by
  have hneedle : '[' ∉ needle key := by simpa [needle] using hb
  rw [arrayStart, fromFirst_bind hneedle]
  by_cases hmem : key.toList ∈ pre
  · obtain ⟨l, r, rfl, hl⟩ := List.eq_append_cons_of_mem hmem
    have hr : ∀ q ∈ r ++ [key.toList], '[' ∉ q := by
      intro q hq
      rcases List.mem_append.mp hq with hq | hq
      · exact (List.pairwise_cons.mp (List.pairwise_append.mp hp).2.1).1 q hq rfl
      · rwa [List.mem_singleton.mp hq]
    have hj : p :: (l ++ key.toList :: r ++ key.toList :: (x ++ '[' :: v) :: ps) =
        p :: (l ++ key.toList :: (r ++ [key.toList] ++ (x ++ '[' :: v) :: ps)) := by simp
    rw [hj]
    refine afterFirst_key hk (fun q hq => h q ?_) hl (by decide) hr hx
    rcases List.mem_cons.mp hq with rfl | hq
    · exact List.mem_cons_self
    · exact List.mem_cons_of_mem _ (List.mem_append_left _ hq)
  · have hn : ∀ r ∈ ([] : List (List Char)), '[' ∉ r := by simp
    exact afterFirst_key hk h hmem (by decide) hn hx

end Wandr
