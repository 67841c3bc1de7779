import Wandr.Arbiter.Base64
import Wandr.Lib.Fields

/-!
# The file of the saved networks

A network is one object of the file, with names and passphrases in base64. The reader cuts the
file at the closing braces and looks for the keys in each piece. What is written is read back
(`saved_roundTrip`), whatever the networks are called.
-/

namespace Wandr

open Text

/-- The tokens of the securities. -/
def securityTokens : List String := ["open", "owe", "wpa-psk", "sae", "wpa-eap"]

/-- A network as the store holds it: its identifier is a word of 32 bits, its security a token. -/
structure SavedNet.Storable (n : SavedNet) : Prop where
  id : n.id < 2 ^ 32
  security : n.security ∈ securityTokens

/-- The fields of a network. -/
def SavedNet.fields (n : SavedNet) : List (List Char × Written) :=
  [("id".toList, .raw (toString n.id).toList),
    ("ssid".toList, .quoted (b64Chars (utf8Encode n.ssid))),
    ("sec".toList, .quoted n.security.toList),
    ("psk".toList, .quoted (b64Chars (utf8Encode n.psk))),
    ("auto".toList, .raw (toString n.autoConnect).toList),
    ("hidden".toList, .raw (toString n.hidden).toList)]

/-- A character that no value of a field has. -/
def isDelimiter (c : Char) : Bool := c = '"' || c = ',' || c = '\x7d' || isWhitespace c

section

variable {p q : List Char} {key : String} {fs : List (List Char × Written)}

/-! ## Reading one field -/

/-- The fields are under different keys, and their values have no delimiter. -/
structure Clean (fs : List (List Char × Written)) : Prop where
  nodup : (fs.map Prod.fst).Nodup
  names : ∀ f ∈ fs, IsName f.1
  values : ∀ f ∈ fs, ∀ c ∈ f.2.chars, isDelimiter c = false

theorem Clean.quotes (h : Clean fs) : ∀ f ∈ fs, IsName f.1 ∧ '"' ∉ f.2.chars :=
  fun f hf => ⟨h.names f hf, fun hm => absurd (h.values f hf _ hm) (by decide)⟩

theorem rawField_fieldsText {v : List Char} (h : Clean fs) (hp : '"' ∉ p)
    (hm : (key.toList, .raw v) ∈ fs) : rawField (fieldsText p fs) key = some (String.ofList v) := by
  obtain ⟨post, hpost⟩ := afterFirst_mem (t := []) (w := v) h.nodup h.quotes hp hm rfl
  have hv : ∀ c ∈ v, isDelimiter c = false := h.values _ hm
  have hpat : ("\"" ++ key ++ "\":").toList = '"' :: (key.toList ++ '"' :: ':' :: []) := by simp
  rw [rawField, hpat, hpost, Option.map_some]
  -- The value goes up to the comma before the next field, or to the end of the piece.
  have htake : (v ++ fieldsText [','] post).takeWhile (fun c => c ≠ ',' ∧ c ≠ '\x7d') = v := by
    have hstop : ∀ c ∈ v, decide (c ≠ ',' ∧ c ≠ '\x7d') = true := by
      intro c hc
      have hd := hv c hc
      simp only [isDelimiter, Bool.or_eq_false_iff, decide_eq_false_iff_not] at hd
      exact decide_eq_true ⟨hd.1.1.2, hd.1.2⟩
    cases post with
    | nil =>
      rw [fieldsText, List.takeWhile_append_of_pos hstop, List.takeWhile_nil, List.append_nil]
    | cons f post => exact takeWhile_append hstop (by decide)
  rw [htake, trim_of_forall]
  intro c hc
  have hd := hv c hc
  simp only [isDelimiter, Bool.or_eq_false_iff] at hd
  exact hd.2

theorem strField_fieldsText {v : List Char} (h : Clean fs) (hp : '"' ∉ p)
    (hm : (key.toList, .quoted v) ∈ fs) :
    strField (fieldsText p fs) key = some (String.ofList v) := by
  obtain ⟨post, hpost⟩ := afterFirst_mem (t := ['"']) (w := v ++ ['"']) h.nodup h.quotes hp hm rfl
  have hpat : ("\"" ++ key ++ "\":\"").toList = '"' :: (key.toList ++ '"' :: ':' :: ['"']) := by
    simp
  have hq : ∀ c ∈ v, decide (c ≠ '"') = true :=
    fun c hc => decide_eq_true fun he => (h.quotes _ hm).2 (he ▸ hc)
  rw [strField, hpat, hpost, Option.bind_some, if_pos (by simp), List.append_assoc,
    List.singleton_append, takeWhile_append hq (by decide)]

/-! ## Reading a network -/

theorem not_delimiter_b64Chars {data : List UInt8} :
    ∀ c ∈ b64Chars data, isDelimiter c = false := by
  have hd {n : Nat} : isDelimiter (b64Digit (n % 64)) = false := by
    have hlt : n % 64 < 64 := Nat.mod_lt _ (by decide)
    revert hlt
    generalize n % 64 = d
    intro hlt
    revert d
    decide
  have hpad : isDelimiter '=' = false := by decide
  induction data using b64Chars.induct with
  | case1 => exact fun c hc => absurd hc List.not_mem_nil
  | case2 a => simp [b64Chars, hd, hpad]
  | case3 a b => simp [b64Chars, hd, hpad]
  | case4 a b c rest ih => simpa [b64Chars, hd] using ih

theorem not_delimiter_toString {k : Nat} : ∀ c ∈ (toString k).toList, isDelimiter c = false := by
  intro c hc
  rw [toList_toString_nat] at hc
  have hd : c.isDigit = true := isDigit_of_mem_toDigits hc
  have hne {d : Char} (h : d.isDigit = false) : c ≠ d := fun he => by simp [he, h] at hd
  have hspace : isWhitespace c = false := isWord_toString.2 c (toList_toString_nat ▸ hc)
  simp [isDelimiter, hspace, hne (d := '"') rfl, hne (d := ',') rfl, hne (d := '\x7d') rfl]

variable {n : SavedNet}

theorem SavedNet.Storable.clean (h : n.Storable) : Clean n.fields where
  nodup := by
    change ["id".toList, "ssid".toList, "sec".toList, "psk".toList, "auto".toList,
      "hidden".toList].Nodup
    decide
  names := by
    have hname : ∀ k ∈ ["id".toList, "ssid".toList, "sec".toList, "psk".toList, "auto".toList,
        "hidden".toList], '"' ∉ k ∧ k ≠ [] ∧ k.head? ≠ some ':' ∧ k.head? ≠ some ',' := by decide
    intro f hf
    obtain ⟨hq, hne, hcol, hcom⟩ := hname f.1 (List.mem_map_of_mem (f := Prod.fst) hf)
    exact ⟨hq, hne, hcol, hcom⟩
  values := by
    have hall {s : String} (h : s.toList.all fun c => isDelimiter c = false) :
        ∀ c ∈ s.toList, isDelimiter c = false := by
      simpa using h
    have hbool {b : Bool} : ∀ c ∈ (toString b).toList, isDelimiter c = false :=
      hall (by cases b <;> decide)
    have hsec : ∀ c ∈ n.security.toList, isDelimiter c = false := by
      have htokens : ∀ s ∈ securityTokens, s.toList.all fun c => isDelimiter c = false := by
        decide
      exact hall (htokens _ h.security)
    simp only [fields, List.forall_mem_cons]
    exact ⟨not_delimiter_toString, not_delimiter_b64Chars, hsec, not_delimiter_b64Chars, hbool,
      hbool, fun _ hf => absurd hf List.not_mem_nil⟩

theorem savedNetOf_fields (h : n.Storable) (hp : '"' ∉ p) :
    savedNetOf (fieldsText p n.fields) = some n := by
  have hc := h.clean
  have hid : rawField (fieldsText p n.fields) "id" = some (toString n.id) := by
    rw [rawField_fieldsText (v := (toString n.id).toList) hc hp (by simp [SavedNet.fields]),
      String.ofList_toList]
  have hflag (b : Bool) (key : String) (hm : (key.toList, .raw (toString b).toList) ∈ n.fields) :
      decide (rawField (fieldsText p n.fields) key = some "true") = b := by
    rw [rawField_fieldsText hc hp hm, String.ofList_toList]
    cases b <;> decide
  have hname (s key : String)
      (hm : (key.toList, .quoted (b64Chars (utf8Encode s))) ∈ n.fields) :
      ((strField (fieldsText p n.fields) key).map b64ToString).getD "" = s := by
    rw [strField_fieldsText hc hp hm]
    exact b64ToString_b64Encode
  have hsec : (strField (fieldsText p n.fields) "sec").getD "wpa-psk" = n.security := by
    rw [strField_fieldsText (v := n.security.toList) hc hp (by simp [SavedNet.fields]),
      Option.getD_some, String.ofList_toList]
  rw [savedNetOf, hid, Option.bind_some, parseUnsigned_toString h.id, Option.map_some, hsec,
    hname n.ssid "ssid" (by simp [SavedNet.fields]), hname n.psk "psk" (by simp [SavedNet.fields]),
    hflag n.autoConnect "auto" (by simp [SavedNet.fields]),
    hflag n.hidden "hidden" (by simp [SavedNet.fields])]

/-! ## Reading the file -/

theorem toList_savedEntry :
    (savedEntry n).toList = fieldsText "  \x7b".toList n.fields ++ ['\x7d'] := by
  delta savedEntry
  simp [SavedNet.fields, fieldsText, fieldText, Written.text, b64Encode]

/-- The piece up to a closing brace is a network. -/
theorem filterMap_entry {r : List Char} (h : n.Storable) (hp : '"' ∉ p ∧ '\x7d' ∉ p) :
    (splitChar '\x7d' (p ++ ((savedEntry n).toList ++ r))).filterMap savedNetOf =
      n :: (splitChar '\x7d' r).filterMap savedNetOf := by
  have htext : p ++ ((savedEntry n).toList ++ r) =
      fieldsText (p ++ "  \x7b".toList) n.fields ++ '\x7d' :: r := by
    have hfields : p ++ fieldsText "  \x7b".toList n.fields =
        fieldsText (p ++ "  \x7b".toList) n.fields := append_fieldsText (List.cons_ne_nil _ _)
    rw [toList_savedEntry, ← hfields]
    simp only [List.append_assoc, List.singleton_append]
  have hclosed : '\x7d' ∉ fieldsText (p ++ "  \x7b".toList) n.fields := by
    have hkeys : ∀ k ∈ ["id".toList, "ssid".toList, "sec".toList, "psk".toList, "auto".toList,
        "hidden".toList], '\x7d' ∉ k := by decide
    refine notMem_fieldsText (by decide) (by simp [hp.2]) fun f hf => ⟨?_, fun hm => ?_⟩
    · exact hkeys f.1 (List.mem_map_of_mem (f := Prod.fst) hf)
    · exact absurd (h.clean.values f hf _ hm) (by decide)
  rw [htext, splitChar_append hclosed, List.filterMap_cons, savedNetOf_fields h (by simp [hp.1])]

/-- There is no network in a text without a quote. -/
theorem savedNetOf_none (hq : '"' ∉ q) : savedNetOf q = none := by
  have hid : afterFirst ("\"" ++ "id" ++ "\":").toList q = none := by
    rw [← List.append_nil q]
    exact afterFirst_append hq
  have hraw : rawField q "id" = none := by rw [rawField, hid, Option.map_none]
  rw [savedNetOf, hraw, Option.bind_none, Option.map_none]

/-- The reader of the pieces, on networks after one another. -/
theorem filterMap_entries {l : List SavedNet} (h : ∀ m ∈ n :: l, m.Storable)
    (hp : '"' ∉ p ∧ '\x7d' ∉ p) (hq : '"' ∉ q ∧ '\x7d' ∉ q) :
    (splitChar '\x7d' (p ++ (List.intercalate [',', '\n']
      ((n :: l).map fun m => (savedEntry m).toList) ++ q))).filterMap savedNetOf = n :: l := by
  have hn : n.Storable := h n List.mem_cons_self
  induction l generalizing n p with
  | nil =>
    rw [List.map_cons, List.map_nil, List.intercalate_singleton, filterMap_entry hn hp,
      splitChar_of_notMem hq.2, List.filterMap_cons, savedNetOf_none hq.1, List.filterMap_nil]
  | cons m l ih =>
    have htail : List.intercalate [',', '\n'] ((n :: m :: l).map fun m => (savedEntry m).toList) ++
        q = (savedEntry n).toList ++ ([',', '\n'] ++ (List.intercalate [',', '\n']
          ((m :: l).map fun m => (savedEntry m).toList) ++ q)) := by
      simp [List.intercalate_cons_cons]
    have hl : ∀ k ∈ m :: l, k.Storable := fun k hk => h k (List.mem_cons_of_mem _ hk)
    rw [htail, filterMap_entry hn hp, ih hl (by decide) (hl m List.mem_cons_self)]

/-- The saved networks are read back from the file they are written to, and bytes from their
    base64. -/
theorem saved_roundTrip {l : List SavedNet} (h : ∀ n ∈ l, n.Storable) :
    savedFromJson (savedToJson l) = l ∧ ∀ data : List UInt8, b64Decode (b64Encode data) = data := by
  refine ⟨?_, fun _ => b64Decode_b64Encode⟩
  cases l with
  | nil => decide
  | cons n l =>
    have htext : (savedToJson (n :: l)).toList = "[\n".toList ++ (List.intercalate [',', '\n']
        ((n :: l).map fun m => (savedEntry m).toList) ++ "\n]\n".toList) := by
      simp [savedToJson, String.toList_intercalate, Function.comp_def]
    rw [savedFromJson, htext]
    exact filterMap_entries h (by decide) (by decide)

end

/-- A network that is called like a field, without a passphrase. -/
def misnamed : SavedNet :=
  { id := 7
    ssid := "\x7d,\x7b\"id\":"
    security := "open"
    psk := ""
    autoConnect := true
    hidden := false }

theorem saved_roundTrip_misnamed :
    savedFromJson (savedToJson [misnamed]) = [misnamed] ∧
      ∀ data : List UInt8, b64Decode (b64Encode data) = data :=
  saved_roundTrip fun n hn => by
    obtain rfl : n = misnamed := by simpa using hn
    exact ⟨by decide, by decide⟩

end Wandr
