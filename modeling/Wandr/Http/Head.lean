import Wandr.Http.Message

/-!
# The head of a response

What is read of a head is its status and those of its fields whose names and values are taken.

* `parseHead_head`: what is read of the head of a response;
* `shows_iff`: the headers are the fields if and only if each of them is taken, and its value is
  text without anything around it;
* `get_of_values_cons`: what is found under a name is what its first field declares.
-/

namespace Wandr.Http

open Text Socket

variable {T : HeaderTypes} {b c : Bytes} {f : Field} {fields : List Field} {s name : String}

/-! ## Lines as texts -/

theorem noEnd_append : NoEnd (b ++ c) ↔ NoEnd b ∧ NoEnd c := by
  simp only [NoEnd, List.mem_append, not_or]
  tauto

theorem noEnd_utf8Encode (h : '\r' ∉ s.toList ∧ '\n' ∉ s.toList) : NoEnd (utf8Encode s) :=
  ⟨fun hm => h.1 (ofNat_mem_of_mem_utf8Encode (by decide) hm),
    fun hm => h.2 (ofNat_mem_of_mem_utf8Encode (by decide) hm)⟩

theorem noEnd_of_isOws (h : IsOws b) : NoEnd b :=
  ⟨fun hm => absurd (h _ hm) (by decide), fun hm => absurd (h _ hm) (by decide)⟩

/-- One space before a value, and nothing after it. -/
theorem isOws_space_nil : IsOws [0x20] ∧ IsOws [] :=
  ⟨fun _ hx => .inl (List.mem_singleton.mp hx), fun _ hx => absurd hx List.not_mem_nil⟩

theorem notMem_of_noEnd (h : NoEnd b) :
    '\r' ∉ decodeLossy .none b ∧ '\n' ∉ decodeLossy .none b :=
  ⟨fun hm => h.1 (mem_of_mem_decodeLossy Pending.high_none hm (by decide) (by decide)),
    fun hm => h.2 (mem_of_mem_decodeLossy Pending.high_none hm (by decide) (by decide))⟩

/-- A character of one byte in front. -/
theorem decodeLossy_cons_ascii {x : UInt8} (h : x < 0x80) :
    decodeLossy .none (x :: b) = Char.ofNat x.toNat :: decodeLossy .none b := by
  rw [← List.nil_append (x :: b), decodeLossy_append_cons h]
  rfl

theorem decodeLossy_line :
    decodeLossy .none (b ++ crlf ++ c) =
      decodeLossy .none b ++ (['\r', '\n'] ++ decodeLossy .none c) := by
  have hc : b ++ crlf ++ c = b ++ 0x0D :: 0x0A :: c := by simp [crlf]
  rw [hc, decodeLossy_append_cons (by decide), decodeLossy_cons_ascii (by decide)]
  rfl

/-- A line, cut off. -/
theorem splitStr_line (h : NoEnd b) :
    splitStr ['\r', '\n'] (decodeLossy .none (b ++ crlf ++ c)) =
      decodeLossy .none b :: splitStr ['\r', '\n'] (decodeLossy .none c) := by
  have ho := splitStr_occurrence (t := decodeLossy .none c) (List.cons_ne_nil '\r' ['\n'])
  rw [decodeLossy_line, splitStr_clear (clear_of_notMem (notMem_of_noEnd h).1) ho, List.append_nil]

/-- The characters of optional whitespace. -/
def blanks (b : Bytes) : List Char := b.map fun x => Char.ofNat x.toNat

theorem isWhitespace_blanks (h : IsOws b) : ∀ d ∈ blanks b, isWhitespace d := by
  intro d hd
  obtain ⟨x, hx, rfl⟩ := List.mem_map.mp hd
  rcases h x hx with rfl | rfl <;> rfl

theorem decodeLossy_ows (h : IsOws b) :
    decodeLossy .none (b ++ c) = blanks b ++ decodeLossy .none c := by
  induction b with
  | nil => rfl
  | cons x b ih =>
    have hx : x < 0x80 := by
      rcases h x List.mem_cons_self with rfl | rfl <;> decide
    rw [List.cons_append, decodeLossy_cons_ascii hx,
      ih fun y hy => h y (List.mem_cons_of_mem _ hy)]
    rfl

theorem decodeLossy_append_ows (h : IsOws b) :
    decodeLossy .none (c ++ b) = decodeLossy .none c ++ blanks b := by
  cases b with
  | nil => rw [List.append_nil, blanks, List.map_nil, List.append_nil]
  | cons x b =>
    have hx : x < 0x80 := by
      rcases h x List.mem_cons_self with rfl | rfl <;> decide
    have hb := decodeLossy_ows (c := []) fun y hy => h y (List.mem_cons_of_mem x hy)
    rw [List.append_nil] at hb
    rw [decodeLossy_append_cons hx, hb]
    simp [blanks, decodeLossy]

/-! ## A field -/

theorem isTchar_cases {d : Char} (h : isTchar d) :
    isWhitespace d = false ∧ isVisible d ∧ d ≠ ':' ∧ d ≠ ',' ∧ d ≠ '\r' ∧ d ≠ '\n' := by
  simp only [isTchar, Bool.or_eq_true, Bool.and_eq_true, decide_eq_true_eq] at h
  have hne {e : Char} (he : d.toNat ≠ e.toNat) : d ≠ e := fun h => he (congrArg Char.toNat h)
  refine ⟨?_, ?_, hne ?_, hne ?_, hne ?_, hne ?_⟩
  · simp only [isWhitespace, Bool.or_eq_false_iff, Bool.and_eq_false_iff, decide_eq_false_iff_not,
      beq_eq_false_iff_ne]
    omega
  · simp only [isVisible, Bool.or_eq_true, Bool.and_eq_true, decide_eq_true_eq]
    omega
  all_goals
    simp only [Char.reduceToNat]
    omega

theorem IsToken.cases (h : IsToken s) {d : Char} (hd : d ∈ s.toList) :
    isWhitespace d = false ∧ isVisible d ∧ d ≠ ':' ∧ d ≠ ',' ∧ d ≠ '\r' ∧ d ≠ '\n' :=
  isTchar_cases (List.all_eq_true.mp h.2 d hd)

theorem Field.noEnd_line (f : Field) : NoEnd f.line := by
  have hname : NoEnd (utf8Encode f.name) :=
    noEnd_utf8Encode ⟨fun hm => (f.token.cases hm).2.2.2.2.1 rfl,
      fun hm => (f.token.cases hm).2.2.2.2.2 rfl⟩
  have hcolon : NoEnd [0x3A] := by
    rw [NoEnd]
    decide
  have hrest : NoEnd (f.before ++ (f.value ++ f.after)) :=
    noEnd_append.mpr ⟨noEnd_of_isOws f.ows.1,
      noEnd_append.mpr ⟨f.noEnd, noEnd_of_isOws f.ows.2⟩⟩
  exact noEnd_append.mpr ⟨hname, noEnd_append.mpr ⟨hcolon, hrest⟩⟩

/-- The value of a field as a text, with nothing around it. -/
def Field.text (f : Field) : String := trim (utf8DecodeLossy f.value)

/-- What is read of a field. -/
def Field.parse (T : HeaderTypes) (f : Field) : Option (String × String) :=
  match T.nameFromBytes f.name, T.valueFromStr f.text with
  | some name, some val => some (name, val)
  | _, _ => none

theorem parseHeader_line (f : Field) :
    parseHeader T (decodeLossy .none f.line) = f.parse T := by
  have hline : decodeLossy .none f.line =
      f.name.toList ++
        ':' :: (blanks f.before ++ (decodeLossy .none f.value ++ blanks f.after)) := by
    rw [Field.line, decodeLossy_utf8Encode_append, decodeLossy_cons_ascii (by decide),
      decodeLossy_ows f.ows.1, decodeLossy_append_ows f.ows.2]
    rfl
  have hcolon : ':' ∉ f.name.toList := fun hm => (f.token.cases hm).2.2.1 rfl
  have hname : trim f.name = f.name := by
    have ht := trim_of_forall fun d hd => (f.token.cases hd).1
    rwa [String.ofList_toList] at ht
  have htake : (f.name.toList ++ ':' :: (blanks f.before ++
      (decodeLossy .none f.value ++ blanks f.after))).takeWhile (· ≠ ':') = f.name.toList := by
    refine takeWhile_append (fun d hd => ?_) (by simp)
    simpa using (f.token.cases hd).2.2.1
  rw [parseHeader, hline, afterFirst_singleton hcolon, htake, String.ofList_toList, hname]
  dsimp only
  rw [trim_append (isWhitespace_blanks f.ows.1) (isWhitespace_blanks f.ows.2)]
  rfl

/-! ## The head -/

theorem appendHeader_line (m : HeaderMap) (f : Field) :
    appendHeader T m (decodeLossy .none f.line) = m ++ (f.parse T).toList := by
  have hne : (decodeLossy .none f.line).isEmpty = false := by
    rw [Field.line, decodeLossy_utf8Encode_append, decodeLossy_cons_ascii (by decide)]
    simp
  rw [appendHeader, hne, if_neg Bool.false_ne_true, parseHeader_line]
  cases f.parse T with
  | none => exact (List.append_nil m).symm
  | some h => rfl

theorem foldl_appendHeader (m : HeaderMap) :
    (fields.map fun f => decodeLossy .none f.line).foldl (appendHeader T) m =
      m ++ fields.filterMap (Field.parse T) := by
  induction fields generalizing m with
  | nil => exact (List.append_nil m).symm
  | cons f fields ih =>
    rw [List.map_cons, List.foldl_cons, appendHeader_line, ih, List.append_assoc]
    cases h : f.parse T with
    | none => rw [List.filterMap_cons_none h]; rfl
    | some x => rw [List.filterMap_cons_some h]; rfl

theorem splitStr_lines :
    splitStr ['\r', '\n'] (decodeLossy .none (lines fields ++ crlf)) =
      (fields.map fun f => decodeLossy .none f.line) ++ [[], []] := by
  induction fields with
  | nil =>
    have hl := splitStr_line (b := []) (c := []) ⟨List.not_mem_nil, List.not_mem_nil⟩
    exact hl
  | cons f fields ih =>
    have hl : lines (f :: fields) ++ crlf = f.line ++ crlf ++ (lines fields ++ crlf) := by
      rw [lines, List.flatMap_cons, List.append_assoc]
      rfl
    rw [hl, splitStr_line f.noEnd_line, ih]
    rfl

variable {r : Response}

theorem parseStatus_statusLine :
    parseStatus (String.ofList (decodeLossy .none r.statusLine)) = some r.status := by
  have hline : String.ofList (decodeLossy .none r.statusLine) =
      r.version ++ " " ++
        (toString r.status ++ " " ++ String.ofList (decodeLossy .none r.reason)) := by
    rw [Response.statusLine, decodeLossy_utf8Encode_append, String.ofList_append,
      String.ofList_toList, String.append_assoc, String.append_assoc]
  have hstatus : parseUnsigned 16 (toString r.status) = some r.status :=
    parseUnsigned_toString (by have := r.threeDigits.2; omega)
  rw [parseStatus, hline, splitWhitespace_cons r.isWord, splitWhitespace_cons isWord_toString]
  exact hstatus

theorem noEnd_statusLine : NoEnd r.statusLine := by
  refine noEnd_append.mpr ⟨noEnd_utf8Encode ?_, r.noEnd⟩
  have hw {s : String} (h : IsWord s.toList) : '\r' ∉ s.toList ∧ '\n' ∉ s.toList :=
    ⟨fun hm => absurd (h.2 _ hm) (by decide), fun hm => absurd (h.2 _ hm) (by decide)⟩
  have hv := hw r.isWord
  have hs := hw (s := toString r.status) isWord_toString
  simp only [String.toList_append, List.mem_append, not_or]
  exact ⟨⟨⟨hv.1, by decide⟩, hs.1, by decide⟩, ⟨hv.2, by decide⟩, hs.2, by decide⟩

/-- What is read of the head of a response. -/
theorem parseHead_head :
    parseHead T r.head = .ok (r.status, r.fields.filterMap (Field.parse T)) := by
  have hs : splitStr ['\r', '\n'] (decodeLossy .none r.head) =
      decodeLossy .none r.statusLine ::
        ((r.fields.map fun f => decodeLossy .none f.line) ++ [[], []]) := by
    rw [Response.head, splitStr_line noEnd_statusLine, splitStr_lines]
  rw [parseHead, utf8DecodeLossy, String.toList_ofList, hs]
  dsimp only
  rw [parseStatus_statusLine, List.foldl_append, foldl_appendHeader]
  rfl

/-! ## What is declared -/

/-- Headers are some fields. -/
def Shows (headers : HeaderMap) (fields : List Field) : Prop :=
  headers.map (fun h => (h.1, utf8Encode h.2)) = fields.map fun f => (lower f.name, f.value)

/-- A field is taken, and its value is text without anything around it. -/
def Field.Kept (T : HeaderTypes) (f : Field) : Prop :=
  (T.nameFromBytes f.name).isSome ∧ (T.valueFromStr f.text).isSome ∧ utf8Encode f.text = f.value

theorem parse_eq_some {h : String × String} (hp : f.parse T = some h) :
    h = (lower f.name, f.text) := by
  rw [Field.parse] at hp
  split at hp
  · next name val hn hv =>
    rw [← Option.some.inj hp, T.name_eq _ _ hn, T.value_eq _ _ hv]
  · exact absurd hp (Option.some_ne_none h).symm

theorem isSome_parse :
    (f.parse T).isSome ↔ (T.nameFromBytes f.name).isSome ∧ (T.valueFromStr f.text).isSome := by
  rw [Field.parse]
  cases T.nameFromBytes f.name <;> cases T.valueFromStr f.text <;> simp

/-- The headers are the fields if and only if each field is kept. -/
theorem shows_iff : Shows (fields.filterMap (Field.parse T)) fields ↔ ∀ f ∈ fields, f.Kept T := by
  induction fields with
  | nil => exact iff_of_true rfl fun f hf => absurd hf List.not_mem_nil
  | cons f fields ih =>
    rw [List.forall_mem_cons, ← ih, Field.Kept, ← and_assoc, ← isSome_parse]
    cases hp : f.parse T with
    | none =>
      -- There is a header too few.
      refine iff_of_false (fun hs => ?_) fun h => absurd h.1.1 Bool.false_ne_true
      have hl := congrArg List.length hs
      have hle := List.length_filterMap_le (Field.parse T) fields
      rw [List.filterMap_cons_none hp, List.length_map, List.length_map, List.length_cons] at hl
      omega
    | some h =>
      rw [Shows, List.filterMap_cons_some hp, parse_eq_some hp, List.map_cons, List.map_cons,
        List.cons.injEq]
      simp [Shows]

theorem values_cons : values (f :: fields) name =
    if lower f.name = name then f.value :: values fields name else values fields name := by
  rw [values, List.filter_cons]
  by_cases h : lower f.name = name
  · rw [if_pos (decide_eq_true h), if_pos h]
    rfl
  · rw [if_neg (by simpa using h), if_neg h]
    rfl

theorem get_cons {m : HeaderMap} {h : String × String} :
    HeaderMap.get (h :: m) name = if h.1 = name then some h.2 else m.get name := by
  rw [HeaderMap.get, List.find?_cons]
  by_cases he : h.1 = name
  · rw [decide_eq_true he, if_pos he]
    rfl
  · rw [decide_eq_false he, if_neg he]
    rfl

/-- A field of another name. -/
theorem get_cons_of_ne (h : lower f.name ≠ name) :
    HeaderMap.get ((f :: fields).filterMap (Field.parse T)) name =
      HeaderMap.get (fields.filterMap (Field.parse T)) name := by
  cases hp : f.parse T with
  | none => rw [List.filterMap_cons_none hp]
  | some x =>
    rw [List.filterMap_cons_some hp, get_cons, parse_eq_some hp, if_neg h]

theorem get_of_values_nil (h : values fields name = []) :
    HeaderMap.get (fields.filterMap (Field.parse T)) name = none := by
  induction fields with
  | nil => rfl
  | cons f fields ih =>
    rw [values_cons] at h
    split at h
    · exact absurd h (List.cons_ne_nil _ _)
    · next hn => rw [get_cons_of_ne hn, ih h]

theorem get_of_values_cons {vs : List Bytes} (hn : name = transferEncoding ∨ name = contentLength)
    (h : values fields name = utf8Encode s :: vs) (hs : ∀ c ∈ s.toList, isVisible c)
    (ht : trim s = s) : HeaderMap.get (fields.filterMap (Field.parse T)) name = some s := by
  induction fields with
  | nil => exact absurd h.symm (List.cons_ne_nil _ _)
  | cons f fields ih =>
    rw [values_cons] at h
    split at h
    · next hf =>
      have htext : f.text = s := by
        rw [Field.text, (List.cons.inj h).1, utf8DecodeLossy_utf8Encode, ht]
      have hp : f.parse T = some (lower f.name, s) := by
        rw [Field.parse, htext, T.value_visible s hs, T.name_known f.name (hf ▸ hn)]
      rw [List.filterMap_cons_some hp, get_cons, if_pos hf]
    · next hf => rw [get_cons_of_ne hf, ih h]

end Wandr.Http
