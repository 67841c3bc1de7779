import Wandr.Http.Head

/-!
# The body of a response

A body in chunks is read chunk by chunk. A chunk is taken that is not too large for the target, and
what is read of a larger one is an error.

* `consumes_readUntil`, `consumes_readExact`: what is read in one piece;
* `gives_readChunked`: chunks are read to their end;
* `fails_readChunked`: the stream ends before that of the last chunk;
* `fails_of_large`: a chunk is too large.
-/

namespace Wandr.Http

open Text Socket Pull

variable {b c d x needle : Bytes} {n : Nat}

/-! ## Reads -/

/-- No occurrence of a needle begins in a part of the bytes, in front of the rest. -/
def Free (needle : Bytes) (b c : Bytes) : Prop := ∀ s, s ≠ [] → s <:+ b → ¬ needle <+: s ++ c

theorem free_append (h : Free needle b (c ++ d)) (h' : Free needle c d) :
    Free needle (b ++ c) d := by
  rintro s hs ⟨u, hu⟩
  rcases List.append_eq_append_iff.mp hu with ⟨t, rfl, rfl⟩ | ⟨t, rfl, rfl⟩
  · by_cases hne : t = []
    · subst hne
      exact h' c hs List.suffix_rfl
    · rw [List.append_assoc]
      exact h t hne (List.suffix_append u t)
  · exact h' s hs (List.suffix_append t s)

theorem free_of_notMem {a : UInt8} (h : a ∉ b) : Free (a :: needle) b c := by
  intro s hs hb hp
  obtain ⟨y, s, rfl⟩ := List.exists_cons_of_ne_nil hs
  obtain ⟨rfl, -⟩ := List.cons_prefix_cons.mp hp
  exact h (hb.subset List.mem_cons_self)

/-- The first occurrence of a needle. -/
theorem findSubslice_of_free (hne : needle ≠ []) (h : Free needle b (needle ++ c)) :
    findSubslice (b ++ needle ++ c) needle = some b.length := by
  rw [List.append_assoc]
  refine findSubslice_eq_some_iff.mpr ⟨hne, ?_, ?_, fun j hj hw => ?_⟩
  · simp only [List.length_append]
    omega
  · rw [List.drop_left, List.take_left]
  · have hd : (b ++ (needle ++ c)).drop j = b.drop j ++ (needle ++ c) :=
      List.drop_append_of_le_length hj.le
    refine h (b.drop j) ?_ (List.drop_suffix j b) ?_
    · rw [← List.length_pos_iff, List.length_drop]
      omega
    · have hp := List.take_prefix needle.length ((b ++ (needle ++ c)).drop j)
      rwa [hw, hd] at hp

theorem consumes_readUntil (hne : needle ≠ []) (h : ∀ c, Free needle b (needle ++ c)) :
    Consumes reader (readUntil needle) (b ++ needle) (b ++ needle) := by
  refine Consumes.await (fun c => ?_) fun c d hc hd => ⟨?_, _, rfl⟩
  · rw [List.length_append]
    exact Option.map_eq_some_iff.mpr ⟨_, findSubslice_of_free hne (h c), rfl⟩
  · refine Option.map_eq_none_iff.mpr (Option.eq_none_iff_forall_ne_some.mpr fun i hi => ?_)
    have hle : i + needle.length ≤ c.length := findSubslice_le hi
    have hall := findSubslice_of_free hne (h [])
    have hlen := congrArg List.length hc
    have hpos := List.length_pos_iff.mpr hd
    rw [List.append_nil, hc, findSubslice_append d hi] at hall
    simp only [List.length_append] at hlen
    have := Option.some.inj hall
    omega

theorem consumes_readExact (h : b.length = n) : Consumes reader (readExact n) b b := by
  refine Consumes.await (fun c => ?_) fun c d hc hd => ⟨?_, _, rfl⟩
  · have hn : ¬ (b ++ c).length < n := by
      rw [List.length_append]
      omega
    rw [h]
    exact if_neg hn
  · have hn : c.length < n := by
      have hpos := List.length_pos_iff.mpr hd
      rw [← h, hc, List.length_append]
      omega
    exact if_pos hn

/-- The end of a line. -/
theorem consumes_crlf : Consumes reader (readExact 2) crlf crlf := consumes_readExact rfl

theorem consumes_line (h : NoEnd b) : Consumes reader (readUntil crlf) (b ++ crlf) (b ++ crlf) :=
  consumes_readUntil (List.cons_ne_nil _ _) fun _ => free_of_notMem h.1

/-- A line that is not empty, after the end of another one. -/
theorem free_crlf (hne : b ≠ []) (h : NoEnd b) : Free (crlf ++ crlf) (crlf ++ b) c := by
  refine free_append (fun s hs hsuf hp => ?_) (free_of_notMem h.1)
  obtain ⟨y, b, rfl⟩ := List.exists_cons_of_ne_nil hne
  have hy : y ≠ 0x0D := fun he => h.1 (he ▸ List.mem_cons_self)
  obtain ⟨u, hu⟩ := hsuf
  match u, hu with
  | [], hu =>
    obtain rfl : s = crlf := hu
    have hp := (List.cons_prefix_cons.mp (List.cons_prefix_cons.mp hp).2).2
    exact hy (List.cons_prefix_cons.mp hp).1.symm
  | [_], hu =>
    obtain rfl : s = [0x0A] := (List.cons.inj hu).2
    exact absurd (List.cons_prefix_cons.mp hp).1 (by decide)
  | _ :: _ :: u, hu =>
    have hn := (List.cons.inj (List.cons.inj hu).2).2
    exact hs (List.append_eq_nil_iff.mp hn).2

theorem Field.line_ne_nil (f : Field) : f.line ≠ [] :=
  List.append_ne_nil_of_right_ne_nil _ (List.cons_ne_nil _ _)

theorem free_fields (fields : List Field) :
    Free (crlf ++ crlf) (fields.flatMap fun f => crlf ++ f.line) c := by
  induction fields with
  | nil => exact fun s hs hb => absurd (List.suffix_nil.mp hb) hs
  | cons f fields ih => exact free_append (free_crlf f.line_ne_nil f.noEnd_line) ih

theorem lines_append (fields : List Field) :
    b ++ crlf ++ (lines fields ++ crlf) =
      b ++ (fields.flatMap fun f => crlf ++ f.line) ++ (crlf ++ crlf) := by
  induction fields generalizing b with
  | nil => simp [lines]
  | cons f fields ih =>
    have hl : b ++ crlf ++ (lines (f :: fields) ++ crlf) =
        (b ++ crlf ++ f.line) ++ crlf ++ (lines fields ++ crlf) := by simp [lines]
    rw [hl, ih, List.flatMap_cons]
    simp

/-- The head ends with its first empty line. -/
theorem consumes_head (r : Response) :
    Consumes reader (readUntil (crlf ++ crlf)) r.head r.head := by
  rw [Response.head, lines_append]
  exact consumes_readUntil (List.cons_ne_nil _ _) fun _ =>
    free_append (free_of_notMem noEnd_statusLine.1) (free_fields _)

/-! ## Sizes -/

theorem hexVal_cases {e : Char} (h : (hexVal e).isSome) :
    isWhitespace e = false ∧ e ≠ ';' ∧ e ≠ '+' ∧ e ≠ '\r' ∧ e ≠ '\n' := by
  have hc : (48 ≤ e.toNat ∧ e.toNat ≤ 57) ∨ (97 ≤ e.toNat ∧ e.toNat ≤ 102) ∨
      (65 ≤ e.toNat ∧ e.toNat ≤ 70) := by
    rw [hexVal] at h
    split at h
    · next hr => exact .inl hr
    · split at h
      · next hr => exact .inr (.inl hr)
      · split at h
        · next hr => exact .inr (.inr hr)
        · exact absurd h Bool.false_ne_true
  have hne {d : Char} (he : e.toNat ≠ d.toNat) : e ≠ d := fun h => he (congrArg Char.toNat h)
  refine ⟨?_, hne ?_, hne ?_, hne ?_, hne ?_⟩
  · simp only [isWhitespace, Bool.or_eq_false_iff, Bool.and_eq_false_iff, decide_eq_false_iff_not,
      beq_eq_false_iff_ne]
    omega
  all_goals
    simp only [Char.reduceToNat]
    omega

theorem isSome_hexVal {cs : List Char} {k : Nat} (h : hexDigits k cs = some n) :
    ∀ e ∈ cs, (hexVal e).isSome := by
  induction cs generalizing k with
  | nil => exact fun e he => absurd he List.not_mem_nil
  | cons e cs ih =>
    rw [hexDigits] at h
    split at h
    · next v hv => exact List.forall_mem_cons.mpr ⟨by rw [hv]; rfl, ih h⟩
    · exact absurd h (Option.some_ne_none n).symm

theorem hexMagnitude_cases {cs : List Char} (h : hexMagnitude cs = some n) :
    cs ≠ [] ∧ ∀ e ∈ cs, isWhitespace e = false ∧ e ≠ ';' ∧ e ≠ '+' ∧ e ≠ '\r' ∧ e ≠ '\n' := by
  rw [hexMagnitude] at h
  split at h
  · exact absurd h (Option.some_ne_none n).symm
  · next hne =>
    exact ⟨fun he => hne (List.isEmpty_iff.mpr he), fun e he => hexVal_cases (isSome_hexVal h e he)⟩

namespace SizeLine

variable (s : SizeLine n)

theorem noEnd_line : NoEnd s.line := by
  obtain ⟨-, hcases⟩ := hexMagnitude_cases s.magnitude
  refine noEnd_append.mpr ⟨noEnd_utf8Encode ⟨fun hm => (hcases _ hm).2.2.2.1 rfl,
    fun hm => (hcases _ hm).2.2.2.2 rfl⟩, ?_⟩
  rcases s.isExt with he | ⟨ows, rest, he, hows, hrest⟩
  · rw [he]
    exact ⟨List.not_mem_nil, List.not_mem_nil⟩
  · have hsemi : NoEnd [0x3B] := by
      rw [NoEnd]
      decide
    rw [he]
    exact noEnd_append.mpr ⟨noEnd_of_isOws hows, noEnd_append.mpr ⟨hsemi, hrest⟩⟩

/-- What stands before the extensions is the size. -/
theorem sizeHex_line : sizeHex (trim (utf8DecodeLossy (s.line ++ crlf))) = s.size := by
  obtain ⟨hne, hcases⟩ := hexMagnitude_cases s.magnitude
  have hws : ∀ e ∈ s.size.toList, isWhitespace e = false := fun e he => (hcases e he).1
  have hsemi : ';' ∉ s.size.toList := fun hm => (hcases _ hm).2.1 rfl
  have hline : utf8DecodeLossy (s.line ++ crlf) =
      String.ofList (s.size.toList ++ (decodeLossy .none s.ext ++ ['\r', '\n'])) := by
    have hd := decodeLossy_line (b := s.line) (c := [])
    rw [List.append_nil] at hd
    rw [utf8DecodeLossy, hd, line, decodeLossy_utf8Encode_append, List.append_assoc]
    rfl
  rw [hline]
  rcases s.isExt with he | ⟨ows, rest, he, hows, -⟩
  · have htrim : trim (String.ofList (s.size.toList ++ (decodeLossy .none s.ext ++ ['\r', '\n']))) =
        s.size := by
      have hws' : ∀ c ∈ ['\r', '\n'], isWhitespace c :=
        List.forall_mem_cons.mpr ⟨rfl, List.forall_mem_singleton.mpr rfl⟩
      have ht : trim (String.ofList (s.size.toList ++ ['\r', '\n'])) =
          trim (String.ofList s.size.toList) := trim_append_right hws'
      rw [he]
      exact ht.trans ((trim_of_forall hws).trans (String.ofList_toList))
    rw [htrim, sizeHex, splitChar_of_notMem hsemi, List.headD_cons, trim_of_forall hws,
      String.ofList_toList]
  · have hext : decodeLossy .none s.ext = blanks ows ++ ';' :: decodeLossy .none rest := by
      rw [he, decodeLossy_ows hows, decodeLossy_cons_ascii (by decide)]
      rfl
    have hsemi' : ';' ∉ s.size.toList ++ blanks ows := by
      rw [List.mem_append, not_or]
      exact ⟨hsemi, fun hm => absurd (isWhitespace_blanks hows _ hm) (by decide)⟩
    have hhead : ∀ e ∈ (s.size.toList ++ blanks ows).head?, isWhitespace e = false := by
      obtain ⟨e, cs, hcs⟩ := List.exists_cons_of_ne_nil hne
      rw [hcs]
      rintro e' ⟨⟩
      exact hws e (hcs ▸ List.mem_cons_self)
    obtain ⟨r, hr⟩ := trim_append_cons (b := decodeLossy .none rest ++ ['\r', '\n']) hhead
      (rfl : isWhitespace ';' = false)
    have hall : s.size.toList ++ (decodeLossy .none s.ext ++ ['\r', '\n']) =
        (s.size.toList ++ blanks ows) ++ ';' :: (decodeLossy .none rest ++ ['\r', '\n']) := by
      simp [hext]
    have ht : trim (String.ofList (s.size.toList ++ blanks ows)) =
        trim (String.ofList s.size.toList) := trim_append_right (isWhitespace_blanks hows)
    rw [hall, hr, sizeHex, String.toList_ofList, splitChar_append hsemi', List.headD_cons]
    exact ht.trans ((trim_of_forall hws).trans String.ofList_toList)

theorem parseHex_size :
    parseHex usizeBits s.size = if n < 2 ^ usizeBits then some n else none := by
  obtain ⟨-, hcases⟩ := hexMagnitude_cases s.magnitude
  rw [parseHex]
  split
  · next cs hcs => exact absurd rfl (hcases '+' (hcs ▸ List.mem_cons_self)).2.2.1
  · rw [s.magnitude, Option.filter_some]
    simp only [decide_eq_true_eq]

/-- The size of a chunk that is not too large for the target. -/
theorem chunkSize_line (h : n < 2 ^ usizeBits) : chunkSize (s.line ++ crlf) = .ok n := by
  have hp : parseHex usizeBits s.size = some n := s.parseHex_size.trans (if_pos h)
  unfold chunkSize
  dsimp only
  rw [s.sizeHex_line, hp]

theorem chunkSize_large (h : ¬ n < 2 ^ usizeBits) : ∃ e, chunkSize (s.line ++ crlf) = .error e := by
  have hp : parseHex usizeBits s.size = none := s.parseHex_size.trans (if_neg h)
  unfold chunkSize
  dsimp only
  rw [s.sizeHex_line, hp]
  exact ⟨_, rfl⟩

end SizeLine

/-! ## Chunks -/

/-- A round of the loop, after its line. -/
def round (n : Nat) (body : Bytes) (size : Nat) : ExceptT String Fetch Bytes :=
  if size = 0 then .mk ((Pull.await (.readUntil crlf)).bind fun _ => .done (.ok body))
  else do
    let chunk ← readExact size
    let _ ← readExact 2
    readChunked n (body ++ chunk)

/-- A chunk that is not too large for the target. -/
def Chunk.Fits (c : Chunk) : Prop := c.data.length < 2 ^ usizeBits

variable {body : Bytes} {ended : Bool} {chunk : Chunk} {chunks : List Chunk}

theorem readChunked_succ : readChunked (n + 1) body =
    readUntil crlf >>= fun line => ExceptT.mk (.done (chunkSize line)) >>= round n body := rfl

theorem round_chunk : round n body chunk.data.length =
    readExact chunk.data.length >>= fun c => readExact 2 >>= fun _ => readChunked n (body ++ c) :=
  if_neg fun he => chunk.ne (List.length_eq_zero_iff.mp he)

theorem consumes_first (s : SizeLine n) :
    Consumes reader (readUntil crlf) (s.line ++ crlf) (s.line ++ crlf) := consumes_line s.noEnd_line

theorem wire_append : chunk.wire ++ c =
    chunk.first.line ++ crlf ++ (chunk.data ++ (crlf ++ c)) := by
  simp [Chunk.wire]

/-- The line of a size that is not too large, and what is done with it. -/
theorem gives_line (s : SizeLine n) (h : n < 2 ^ usizeBits) : Gives reader
    (ExceptT.mk (.done (chunkSize (s.line ++ crlf))) : ExceptT String Fetch Nat) b n b := by
  rw [s.chunkSize_line h]
  rfl

/-- A round that reads a chunk. -/
theorem gives_chunk (h : chunk.Fits)
    (hg : Gives reader (readChunked n (body ++ chunk.data)) b x c) :
    Gives reader (readChunked (n + 1) body) (chunk.wire ++ b) x c := by
  rw [readChunked_succ, wire_append]
  refine ((consumes_first chunk.first).gives _).bind ((gives_line chunk.first h).bind ?_)
  rw [round_chunk]
  exact ((consumes_readExact rfl).gives _).bind ((consumes_crlf.gives b).bind hg)

theorem fails_chunk (h : chunk.Fits)
    (hf : Fails reader ended (readChunked n (body ++ chunk.data)) b) :
    Fails reader ended (readChunked (n + 1) body) (chunk.wire ++ b) := by
  rw [readChunked_succ, wire_append]
  refine ((consumes_first chunk.first).gives _).fails_bind
    ((gives_line chunk.first h).fails_bind ?_)
  rw [round_chunk]
  exact ((consumes_readExact rfl).gives _).fails_bind
    ((consumes_crlf.gives b).fails_bind hf)

/-- The read after the last chunk. -/
theorem gives_last (s : SizeLine 0) (hb : crlf <:+: b) :
    ∃ c, Gives reader (readChunked (n + 1) body) (s.line ++ crlf ++ b) body c := by
  obtain ⟨i, hi⟩ := Option.isSome_iff_exists.mp
    (findSubslice_isSome.mpr ⟨List.cons_ne_nil _ _, hb⟩ : (findSubslice b crlf).isSome)
  have he : reader.enough (.readUntil crlf) b = some (i + 2) :=
    Option.map_eq_some_iff.mpr ⟨i, hi, rfl⟩
  refine ⟨b.drop (i + 2), ?_⟩
  rw [readChunked_succ]
  refine ((consumes_first s).gives b).bind ((gives_line s (Nat.two_pow_pos _)).bind ?_)
  rw [round, if_pos rfl]
  exact drain_enough he

/-- Chunks that are not too large are read to their end. -/
theorem gives_readChunked (body : Bytes) (s : SizeLine 0) (hb : crlf <:+: b) (h : ∀ c ∈ chunks, c.Fits)
    (hn : chunks.length < n) : ∃ c, Gives reader (readChunked n body)
      (chunks.flatMap Chunk.wire ++ (s.line ++ crlf) ++ b)
      (body ++ chunks.flatMap Chunk.data) c := by
  induction chunks generalizing n body with
  | nil =>
    obtain ⟨n, rfl⟩ := Nat.exists_eq_add_one_of_ne_zero (Nat.ne_of_gt hn)
    rw [List.flatMap_nil, List.flatMap_nil, List.nil_append, List.append_nil]
    exact gives_last s hb
  | cons chunk chunks ih =>
    obtain ⟨n, rfl⟩ := Nat.exists_eq_add_one_of_ne_zero (Nat.ne_zero_of_lt hn)
    obtain ⟨hc, h⟩ := List.forall_mem_cons.mp h
    obtain ⟨c, hg⟩ := ih (body ++ chunk.data) h (Nat.lt_of_succ_lt_succ hn)
    refine ⟨c, ?_⟩
    rw [List.flatMap_cons, List.flatMap_cons, ← List.append_assoc body,
      List.append_assoc chunk.wire, List.append_assoc chunk.wire]
    exact gives_chunk hc hg

/-- The stream ends before the last chunk is complete. -/
theorem fails_readChunked (body : Bytes) (s : SizeLine 0) (h : ∀ c ∈ chunks, c.Fits) (hn : chunks.length < n) :
    ∀ c d, chunks.flatMap Chunk.wire ++ (s.line ++ crlf) = c ++ d → d ≠ [] →
      Fails reader true (readChunked n body) c := by
  induction chunks generalizing n body with
  | nil =>
    intro c d hc hd
    obtain ⟨n, rfl⟩ := Nat.exists_eq_add_one_of_ne_zero (Nat.ne_of_gt hn)
    rw [readChunked_succ]
    exact ((consumes_first s).fails c d hc hd).bind
  | cons chunk chunks ih =>
    obtain ⟨n, rfl⟩ := Nat.exists_eq_add_one_of_ne_zero (Nat.ne_zero_of_lt hn)
    obtain ⟨hc, h⟩ := List.forall_mem_cons.mp h
    have hi := ih (body ++ chunk.data) h (Nat.lt_of_succ_lt_succ hn)
    rw [List.flatMap_cons, List.append_assoc, wire_append, readChunked_succ]
    refine (consumes_first chunk.first).fails_bind fun c d hcd hd =>
      (gives_line chunk.first hc).fails_bind ?_
    rw [round_chunk]
    exact (consumes_readExact rfl).fails_bind (consumes_crlf.fails_bind hi) c d hcd hd

/-- A chunk is too large. -/
theorem fails_of_large (h : ∃ c ∈ chunks, ¬ c.Fits) (hn : chunks.length < n) :
    Fails reader ended (readChunked n body) (chunks.flatMap Chunk.wire ++ b) := by
  induction chunks generalizing n body with
  | nil => exact absurd h (by simp)
  | cons chunk chunks ih =>
    obtain ⟨n, rfl⟩ := Nat.exists_eq_add_one_of_ne_zero (Nat.ne_zero_of_lt hn)
    rw [List.flatMap_cons, List.append_assoc]
    by_cases hc : chunk.Fits
    · refine fails_chunk hc (ih ?_ (Nat.lt_of_succ_lt_succ hn))
      simpa [hc] using h
    · obtain ⟨e, he⟩ := chunk.first.chunkSize_large hc
      rw [wire_append, readChunked_succ]
      refine ((consumes_first chunk.first).gives _).fails_bind ?_
      rw [he]
      exact ⟨e, _, rfl⟩

end Wandr.Http
