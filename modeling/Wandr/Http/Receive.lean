import Wandr.Http.Body

/-!
# Receiving a response

A response is received as its fields declare, unless they name a coding besides the chunks: the
name of the coding is compared as a whole, and what it is compared with is only that of the chunks.

* `returns_of_fits`: what a response that fits is received as;
* `answered_iff`: when a response is received, or its loss noticed.
-/

namespace Wandr.Http

open Text Socket Pull

variable {T : HeaderTypes} {r : Response} {s : String} {fuel n : Nat} {b c d : Bytes}

/-! ## What the fields declare -/

theorem Coding.visible_text (c : Coding) : ∀ d ∈ c.text.toList, isVisible d := by
  intro d hd
  rw [Coding.text, String.toList_append, List.mem_append] at hd
  exact hd.elim (fun h => (c.token.cases h).2.1) (c.visible d)

theorem visible_of_isBlank (h : IsBlank s) : ∀ d ∈ s.toList, isVisible d := by
  intro d hd
  rcases h d hd with rfl | rfl <;> rfl

theorem Lists.visible {cs : List Coding} (h : Lists cs s) : ∀ d ∈ s.toList, isVisible d := by
  induction h with
  | one c => exact c.visible_text
  | cons c hb ha _ ih =>
    intro d hd
    simp only [String.toList_append, List.mem_append] at hd
    rcases hd with (hd | (hd | hd) | hd) | hd
    · exact c.visible_text d hd
    · exact visible_of_isBlank hb d hd
    · rw [List.mem_singleton.mp hd]
      rfl
    · exact visible_of_isBlank ha d hd
    · exact ih d hd

/-- A text in which there is something else is not the coding of the chunks. -/
theorem lower_ne_chunked {d : Char} (hd : d ∈ s.toList)
    (h : d = ',' ∨ d = ' ' ∨ d = '\t' ∨ d = ';') : lower s ≠ "chunked" := by
  intro he
  have hm : d.toLower ∈ "chunked".toList := by
    rw [← he, lower, String.toList_ofList]
    exact List.mem_map_of_mem hd
  rcases h with rfl | rfl | rfl | rfl <;> exact absurd hm (by decide)

/-- A list that names another coding is not the coding of the chunks. -/
theorem Lists.lower_ne {cs : List Coding} (h : Lists cs s)
    (hc : ∀ c, cs = [c] → lower c.name ≠ "chunked") : lower s ≠ "chunked" := by
  cases h with
  | one c =>
    cases hp : c.params.toList with
    | nil =>
      have ht : c.text = c.name := by
        rw [Coding.text, String.toList_eq_nil_iff.mp hp, String.append_empty]
      rw [ht]
      exact hc c rfl
    | cons d ds =>
      have hd : d ∈ c.text.toList := by
        rw [Coding.text, String.toList_append, hp]
        exact List.mem_append_right _ List.mem_cons_self
      exact lower_ne_chunked hd (.inr (c.begins d (by rw [hp]; rfl)))
  | cons c hb ha hl =>
    refine lower_ne_chunked (d := ',') ?_ (.inl rfl)
    simp

/-- The first line that lists codings does not name the chunks alone. -/
theorem Coded.cases {texts : List String} (h : Coded texts) : ∃ s ts, texts = s :: ts ∧
    (∀ d ∈ s.toList, isVisible d) ∧ trim s = s ∧ lower s ≠ "chunked" := by
  obtain ⟨codings, hl, others, last, hall, hne, -, hothers⟩ := h.lists
  cases hl with
  | nil => exact absurd hall (by simp)
  | @cons cs s css ts hc hcs =>
    refine ⟨s, ts, rfl, hc.visible, h.trimmed s List.mem_cons_self, hc.lower_ne fun c hc' => ?_⟩
    obtain ⟨o, os, rfl⟩ := List.exists_cons_of_ne_nil hne
    rw [hc', List.flatten_cons] at hall
    rw [(List.cons.inj hall).1]
    exact hothers o List.mem_cons_self

/-- The letters of the coding of the chunks, in either case. -/
theorem chunked_cases {d : Char} (h : d.toLower ∈ "chunked".toList) :
    isVisible d ∧ isWhitespace d = false := by
  have hl : "chunked".toList = ['c', 'h', 'u', 'n', 'k', 'e', 'd'] := rfl
  by_cases hu : d.val ≥ 'A'.val ∧ d.val ≤ 'Z'.val
  · have hn : 65 ≤ d.toNat ∧ d.toNat ≤ 90 := hu
    simp only [isVisible, isWhitespace, Bool.or_eq_true, Bool.and_eq_true, decide_eq_true_eq,
      Bool.or_eq_false_iff, Bool.and_eq_false_iff, decide_eq_false_iff_not, beq_eq_false_iff_ne]
    omega
  · have hd : d.toLower = d := dif_neg hu
    rw [hd, hl] at h
    simp only [List.mem_cons, List.not_mem_nil, or_false] at h
    rcases h with rfl | rfl | rfl | rfl | rfl | rfl | rfl <;> decide

theorem digit_cases {d : Char} (h : d.isDigit) :
    isVisible d ∧ isWhitespace d = false ∧ d ≠ '+' := by
  simp only [Char.isDigit, Bool.and_eq_true, decide_eq_true_eq, UInt32.le_iff_toNat_le] at h
  have hn : 48 ≤ d.toNat ∧ d.toNat ≤ 57 := h
  refine ⟨?_, ?_, fun he => ?_⟩
  · simp only [isVisible, Bool.or_eq_true, Bool.and_eq_true, decide_eq_true_eq]
    omega
  · simp only [isWhitespace, Bool.or_eq_false_iff, Bool.and_eq_false_iff, decide_eq_false_iff_not,
      beq_eq_false_iff_ne]
    omega
  · rw [he] at hn
    exact absurd hn (by decide)

theorem isDigit_of_digits {cs : List Char} {k : Nat} (h : digits k cs = some n) :
    ∀ d ∈ cs, d.isDigit := by
  induction cs generalizing k with
  | nil => exact fun d hd => absurd hd List.not_mem_nil
  | cons d cs ih =>
    rw [digits] at h
    split at h
    · next hd => exact List.forall_mem_cons.mpr ⟨hd, ih h⟩
    · exact absurd h (Option.some_ne_none n).symm

theorem isDigit_of_magnitude {cs : List Char} (h : magnitude cs = some n) :
    ∀ d ∈ cs, d.isDigit := by
  rw [magnitude] at h
  split at h
  · exact absurd h (Option.some_ne_none n).symm
  · exact isDigit_of_digits h

theorem trim_of_toList (h : ∀ d ∈ s.toList, isWhitespace d = false) : trim s = s := by
  have ht := trim_of_forall h
  rwa [String.ofList_toList] at ht

theorem parseUnsigned_of_magnitude (h : magnitude s.toList = some n) :
    parseUnsigned usizeBits s = if n < 2 ^ usizeBits then some n else none := by
  have hd := isDigit_of_magnitude h
  rw [parseUnsigned]
  split
  · next cs hcs =>
    exact absurd rfl (digit_cases (hd '+' (hcs ▸ List.mem_cons_self))).2.2
  · rw [h, Option.filter_some]
    simp only [decide_eq_true_eq]

/-! ## Which way the body is read -/

/-- The headers of a response. -/
def Response.headers (T : HeaderTypes) (r : Response) : HeaderMap :=
  r.fields.filterMap (Field.parse T)

theorem isChunked_of_nil (h : values r.fields transferEncoding = []) :
    isChunked T (r.headers T) = false := by
  rw [isChunked, Response.headers, get_of_values_nil h]
  rfl

theorem isChunked_of_cons {vs : List Bytes}
    (h : values r.fields transferEncoding = utf8Encode s :: vs)
    (hs : ∀ c ∈ s.toList, isVisible c) (ht : trim s = s) :
    isChunked T (r.headers T) = decide (lower s = "chunked") := by
  rw [isChunked, Response.headers, get_of_values_cons (.inl rfl) h hs ht, Option.bind_some,
    T.toStr_visible s hs]

theorem bodyLength_of_nil (h : values r.fields contentLength = []) :
    bodyLength T (r.headers T) = none := by
  rw [bodyLength, Response.headers, get_of_values_nil h]
  rfl

theorem bodyLength_of_cons (h : values r.fields contentLength = [utf8Encode s])
    (hm : magnitude s.toList = some n) :
    bodyLength T (r.headers T) = if n < 2 ^ usizeBits then some n else none := by
  have hd := isDigit_of_magnitude hm
  have hs : ∀ c ∈ s.toList, isVisible c := fun c hc => (digit_cases (hd c hc)).1
  have ht : trim s = s := trim_of_toList fun c hc => (digit_cases (hd c hc)).2.1
  rw [bodyLength, Response.headers, get_of_values_cons (.inr rfl) h hs ht, Option.bind_some,
    T.toStr_visible s hs, Option.bind_some, ht, parseUnsigned_of_magnitude hm]

/-- How a body is read. -/
inductive Way
  | exact (n : Nat)
  | chunks
  | toEnd

def Way.read (fuel : Nat) : Way → ExceptT String Fetch Bytes
  | .exact n => readExact n
  | .chunks => readChunked fuel []
  | .toEnd => readToEnd

/-- How the body of a response is read. -/
def Framing.way : Framing → Way
  | .length body => if body.length < 2 ^ usizeBits then .exact body.length else .toEnd
  | .chunked _ => .chunks
  | .coded _ => .toEnd
  | .close _ => .toEnd

theorem readBody_eq : readBody T fuel (r.headers T) = r.framing.way.read fuel := by
  have hd := r.declared
  rw [readBody]
  cases hf : r.framing with
  | length body =>
    rw [hf] at hd
    obtain ⟨ht, s, hs, hm⟩ := hd
    rw [isChunked_of_nil ht, if_neg Bool.false_ne_true, bodyLength_of_cons hs hm, Framing.way]
    by_cases hn : body.length < 2 ^ usizeBits
    · rw [if_pos hn, if_pos hn]
      rfl
    · rw [if_neg hn, if_neg hn]
      rfl
  | chunked c =>
    rw [hf] at hd
    obtain ⟨-, s, hs, hl⟩ := hd
    have hc {d : Char} (h : d ∈ s.toList) : d.toLower ∈ "chunked".toList := by
      rw [← hl, lower, String.toList_ofList]
      exact List.mem_map_of_mem h
    rw [isChunked_of_cons hs (fun c h => (chunked_cases (hc h)).1)
      (trim_of_toList fun c h => (chunked_cases (hc h)).2), decide_eq_true hl]
    rfl
  | coded c =>
    rw [hf] at hd
    obtain ⟨hc, texts, hs, hl⟩ := hd
    obtain ⟨s, ts, rfl, hv, ht, hne⟩ := hl.cases
    rw [isChunked_of_cons hs hv ht, bodyLength_of_nil hc, decide_eq_false hne]
    rfl
  | close body =>
    rw [hf] at hd
    rw [isChunked_of_nil hd.1, bodyLength_of_nil hd.2]
    rfl

/-! ## What comes of a request -/

def Framing.body : Framing → Bytes
  | .length body => body
  | .chunked c => c.data
  | .coded c => c.data
  | .close body => body

/-- A response as it is received. -/
def Response.result (T : HeaderTypes) (r : Response) : RawResponse where
  status := r.status
  headers := r.headers T
  body := r.framing.body

/-- A request, after it has the head. -/
def finish (T : HeaderTypes) (fuel : Nat) (head : Bytes) : ExceptT String Fetch RawResponse :=
  ExceptT.mk (.done (parseHead T head)) >>= fun x => readBody T fuel x.2 >>= fun body =>
    pure { status := x.1, headers := x.2, body }

theorem request_eq : request T fuel = readUntil (crlf ++ crlf) >>= finish T fuel := rfl

/-- It goes on with the body. -/
theorem finish_head : finish T fuel r.head = r.framing.way.read fuel >>= fun body =>
    pure { status := r.status, headers := r.headers T, body } := by
  rw [finish, parseHead_head, ← readBody_eq]
  rfl

theorem request_done {ended : Bool} {body : Bytes}
    (h : (r.framing.way.read fuel).run.drain reader ended b = (.done (.ok body), c)) :
    (request T fuel).run.drain reader ended (r.head ++ b) =
      (.done (.ok { status := r.status, headers := r.headers T, body }), c) := by
  rw [request_eq, ((consumes_head r).gives b).drain_bind, finish_head]
  exact drain_bind_done h

theorem request_fails {ended : Bool} (h : Fails reader ended (r.framing.way.read fuel) b) :
    Fails reader ended (request T fuel) (r.head ++ b) := by
  rw [request_eq]
  refine ((consumes_head r).gives b).fails_bind ?_
  rw [finish_head]
  exact h.bind

/-- The stream ends in the head, or in what must come after it. -/
theorem request_cut {w : Bytes}
    (h : ∀ c d, w = c ++ d → d ≠ [] → Fails reader true (r.framing.way.read fuel) c) :
    ∀ c d, r.head ++ w = c ++ d → d ≠ [] → Fails reader true (request T fuel) c := by
  rw [request_eq]
  refine (consumes_head r).fails_bind fun c d hc hd => ?_
  rw [finish_head]
  exact (h c d hc hd).bind

/-! ## What is received -/

/-- What has come, and whether it was all. -/
def arrived (es : List Socket.Event) : Bytes × Bool := es.foldl came ([], false)

/-- A request that is polled after some events has come to an end, in which it has gone through a
    number of rounds at most. -/
def Returns (T : HeaderTypes) (es : List Socket.Event)
    (P : Except String RawResponse → Prop) : Prop :=
  ∃ n, ∀ fuel ≥ n, ∃ x, (Task.run (request T fuel).run (es ++ [.poll])).prog = .done x ∧ P x

variable {es : List Socket.Event} {P Q : Except String RawResponse → Prop}

theorem Returns.and (h : Returns T es P) (h' : Returns T es Q) : ∃ x, P x ∧ Q x := by
  obtain ⟨n, hn⟩ := h
  obtain ⟨m, hm⟩ := h'
  obtain ⟨x, hx, hp⟩ := hn (max n m) (le_max_left n m)
  obtain ⟨y, hy, hq⟩ := hm (max n m) (le_max_right n m)
  obtain rfl := Pull.done.inj (hx.symm.trans hy)
  exact ⟨x, hp, hq⟩

theorem returns_of_done (y : Except String RawResponse) (n : Nat)
    (h : ∀ fuel ≥ n, ∃ c, (request T fuel).run.drain reader (arrived es).2 (arrived es).1 =
      (.done y, c)) (hy : P y) : Returns T es P := by
  refine ⟨n, fun fuel hf => ⟨y, ?_, hy⟩⟩
  obtain ⟨c, hc⟩ := h fuel hf
  exact (Task.run_poll _ es).trans (congrArg Prod.fst hc)

/-- A request fails. -/
def IsError (x : Except String RawResponse) : Prop := ∃ e, x = .error e

theorem returns_of_fails (n : Nat)
    (h : ∀ fuel ≥ n, Fails reader (arrived es).2 (request T fuel) (arrived es).1) :
    Returns T es IsError := by
  refine ⟨n, fun fuel hf => ?_⟩
  obtain ⟨e, c, hc⟩ := h fuel hf
  exact ⟨.error e, (Task.run_poll _ es).trans (congrArg Prod.fst hc), e, rfl⟩

namespace Response

variable (T r)

/-- All of a response has come. More may have, where the body does not end with the stream. -/
def Whole (x : Bytes × Bool) : Prop :=
  ∃ rest, x.1 = r.wire ++ rest ∧ ∀ body, r.framing = .close body → rest = [] ∧ x.2 = true

/-- The stream has ended before the length, or the last chunk, was complete. -/
def Cut (x : Bytes × Bool) : Prop := x.2 = true ∧ ∃ d, d ≠ [] ∧ r.needed = x.1 ++ d

/-- What a response is received as: an error when its body was coded, and else the status, the
    fields and the body. -/
def Received (x : Except String RawResponse) : Prop :=
  match r.framing with
  | .coded _ => IsError x
  | _ => ∃ raw, x = .ok raw ∧ raw.status = r.status ∧ Shows raw.headers r.fields ∧
    raw.body = r.framing.body

/-- However it comes, a response is received when it has come, and its loss is noticed. -/
def Answered : Prop :=
  (∀ es, r.Whole (arrived es) → Returns T es r.Received) ∧
    ∀ es, r.Cut (arrived es) → Returns T es IsError

end Response

/-- No other coding is named, and what is announced is not too large for the target. -/
def Framing.Fits : Framing → Prop
  | .length body => body.length < 2 ^ usizeBits
  | .chunked c => ∀ chunk ∈ c.chunks, chunk.Fits
  | .coded _ => False
  | .close _ => True

/-! ## When a response is received -/

/-- All that is left of the stream. -/
theorem drain_readToEnd : readToEnd.run.drain reader true b = (.done (.ok b), []) := by
  have hd : (Pull.await Read.readToEnd : Fetch (Except String Bytes)).drain reader true b =
      (.done (.ok (b.take b.length)), b.drop b.length) := drain_atEnd rfl
  rwa [List.take_length, List.drop_length] at hd

/-- The body is read as it is framed. -/
theorem drain_way (h : r.framing.Fits) {x : Bytes × Bool} {rest : Bytes}
    (hx : x.1 = r.wire ++ rest)
    (hclose : ∀ body, r.framing = .close body → rest = [] ∧ x.2 = true) :
    ∃ n, ∀ fuel ≥ n, ∃ c, (r.framing.way.read fuel).run.drain reader x.2 (r.framing.wire ++ rest) =
      (.done (.ok r.framing.body), c) := by
  cases hf : r.framing with
  | length body =>
    rw [hf] at h
    refine ⟨0, fun fuel _ => ⟨rest, ?_⟩⟩
    have hway : (Framing.length body).way = .exact body.length := if_pos h
    rw [hway]
    exact ((consumes_readExact rfl).gives rest).drain
  | chunked c =>
    rw [hf] at h
    refine ⟨c.chunks.length + 1, fun fuel hfuel => ?_⟩
    have hcrlf : crlf <:+: lines c.trailers ++ crlf ++ rest := ⟨lines c.trailers, rest, rfl⟩
    obtain ⟨y, hy⟩ := gives_readChunked [] c.last hcrlf h hfuel
    refine ⟨y, ?_⟩
    have hwire : (Framing.chunked c).wire ++ rest = c.chunks.flatMap Chunk.wire ++
        (c.last.line ++ crlf) ++ (lines c.trailers ++ crlf ++ rest) := by
      simp only [Framing.wire, Chunks.wire, Chunks.needed, List.append_assoc]
    rw [hwire]
    exact hy.drain
  | coded c =>
    rw [hf] at h
    exact h.elim
  | close body =>
    obtain ⟨rfl, he⟩ := hclose body hf
    refine ⟨0, fun fuel _ => ⟨[], ?_⟩⟩
    rw [he, List.append_nil]
    exact drain_readToEnd

theorem returns_of_fits (h : r.framing.Fits) (hw : r.Whole (arrived es)) :
    Returns T es (· = .ok (r.result T)) := by
  obtain ⟨rest, hx, hclose⟩ := hw
  obtain ⟨n, hn⟩ := drain_way h hx hclose
  refine returns_of_done _ n (fun fuel hf => ?_) rfl
  obtain ⟨c, hc⟩ := hn fuel hf
  refine ⟨c, ?_⟩
  rw [hx, Response.wire, List.append_assoc]
  exact request_done hc

theorem returns_of_cut (h : r.framing.Fits) (hc : r.Cut (arrived es)) : Returns T es IsError := by
  obtain ⟨he, d, hd, hneeded⟩ := hc
  rw [Response.needed] at hneeded
  cases hf : r.framing with
  | length body =>
    rw [hf] at h hneeded
    have hway : r.framing.way = .exact body.length := by
      rw [hf]
      exact if_pos h
    refine returns_of_fails 0 fun fuel _ => ?_
    rw [he]
    refine request_cut (fun c d => ?_) _ d hneeded hd
    rw [hway]
    exact (consumes_readExact rfl).fails c d
  | chunked k =>
    rw [hf] at h hneeded
    have hway : r.framing.way = .chunks := by rw [hf]; rfl
    refine returns_of_fails (k.chunks.length + 1) fun fuel hfuel => ?_
    rw [he]
    refine request_cut (fun c d => ?_) _ d hneeded hd
    rw [hway]
    exact fails_readChunked [] k.last h hfuel c d
  | coded k =>
    rw [hf] at h
    exact h.elim
  | close body =>
    rw [hf] at hneeded
    exact absurd (List.append_eq_nil_iff.mp hneeded.symm).2 hd

/-- All bytes come at once, and then the end of the stream. -/
def atOnce (b : Bytes) : List Socket.Event := [.received .complete b, .received .dropped []]

theorem arrived_atOnce (b : Bytes) : arrived (atOnce b) = (b, true) := by
  have h : arrived (atOnce b) = (b ++ [], true) := rfl
  rw [h, List.append_nil]

theorem whole_atOnce : r.Whole (arrived (atOnce r.wire)) := by
  rw [arrived_atOnce]
  exact ⟨[], (List.append_nil _).symm, fun _ _ => ⟨rfl, rfl⟩⟩

theorem not_isError_ok (raw : RawResponse) : ¬ IsError (.ok raw) := by
  rintro ⟨e, he⟩
  cases he

/-- The rest of the stream is taken for the body. -/
theorem returns_toEnd (h : r.framing.way = .toEnd) (b : Bytes) :
    Returns T (atOnce (r.head ++ b)) fun x => ¬ IsError x := by
  refine returns_of_done (.ok { status := r.status, headers := r.headers T, body := b }) 0
    (fun fuel _ => ⟨[], ?_⟩) (not_isError_ok _)
  rw [arrived_atOnce]
  refine request_done ?_
  rw [h]
  exact drain_readToEnd

/-- What is announced is not too large, and no other coding is named, if a response is received or
    its loss noticed. -/
theorem fits_of_answered (h : r.Answered T) : r.framing.Fits := by
  cases hf : r.framing with
  | length body =>
    by_contra hn
    -- The length is not understood, and the end of the stream taken for that of the body.
    have hway : r.framing.way = .toEnd := by
      rw [hf]
      exact if_neg hn
    have hne : body ≠ [] := by
      rintro rfl
      exact hn (Nat.two_pow_pos _)
    have hcut : r.Cut (arrived (atOnce (r.head ++ []))) := by
      rw [arrived_atOnce, List.append_nil]
      exact ⟨rfl, body, hne, by rw [Response.needed, hf]⟩
    obtain ⟨x, hx, hx'⟩ := (h.2 _ hcut).and (returns_toEnd hway [])
    exact hx' hx
  | chunked c =>
    by_contra hn
    have hlarge : ∃ chunk ∈ c.chunks, ¬ chunk.Fits := by simpa [Framing.Fits] using hn
    have hfails : Returns T (atOnce r.wire) IsError := by
      refine returns_of_fails (c.chunks.length + 1) fun fuel hfuel => ?_
      rw [arrived_atOnce, Response.wire]
      refine request_fails ?_
      have hwire : r.framing.wire = c.chunks.flatMap Chunk.wire ++
          ((c.last.line ++ crlf) ++ (lines c.trailers ++ crlf)) := by
        rw [hf]
        simp only [Framing.wire, Chunks.wire, Chunks.needed, List.append_assoc]
      rw [hwire, hf]
      exact fails_of_large hlarge hfuel
    obtain ⟨x, hx, hx'⟩ := (h.1 _ whole_atOnce).and hfails
    rw [Response.Received, hf] at hx
    obtain ⟨raw, rfl, -⟩ := hx
    exact not_isError_ok raw hx'
  | coded c =>
    have hway : r.framing.way = .toEnd := by rw [hf]; rfl
    obtain ⟨x, hx, hx'⟩ := (h.1 _ whole_atOnce).and (returns_toEnd hway r.framing.wire)
    rw [Response.Received, hf] at hx
    exact hx' hx
  | close body => trivial

theorem received_result (h : r.framing.Fits) :
    r.Received (.ok (r.result T)) ↔ Shows (r.headers T) r.fields := by
  have hr : (∃ raw, Except.ok (r.result T) = (.ok raw : Except String RawResponse) ∧
      raw.status = r.status ∧ Shows raw.headers r.fields ∧ raw.body = r.framing.body) ↔
      Shows (r.headers T) r.fields := by
    constructor
    · rintro ⟨raw, he, -, hs, -⟩
      obtain rfl := Except.ok.inj he
      exact hs
    · exact fun hs => ⟨_, rfl, rfl, hs, rfl⟩
  rw [Response.Received]
  cases hf : r.framing with
  | coded c =>
    rw [hf] at h
    exact h.elim
  | length body | chunked c | close body =>
    rw [hf] at hr
    exact hr

/-- A response is received, however it comes, and its loss noticed, if and only if what it announces
    is not too large for the target and no coding is named besides the chunks, and each of its
    fields is taken as it is. -/
theorem answered_iff (T : HeaderTypes) (r : Response) :
    r.Answered T ↔ r.framing.Fits ∧ ∀ f ∈ r.fields, f.Kept T := by
  constructor
  · intro h
    have hf := fits_of_answered h
    obtain ⟨x, hx, rfl⟩ := (h.1 _ whole_atOnce).and (returns_of_fits hf whole_atOnce)
    exact ⟨hf, shows_iff.mp ((received_result hf).mp hx)⟩
  · rintro ⟨hf, hk⟩
    refine ⟨fun es hw => ?_, fun es hc => returns_of_cut hf hc⟩
    obtain ⟨n, hn⟩ := returns_of_fits (T := T) hf hw
    refine ⟨n, fun fuel hfuel => ?_⟩
    obtain ⟨x, hx, rfl⟩ := hn fuel hfuel
    exact ⟨_, hx, (received_result hf).mpr (shows_iff.mpr hk)⟩

/-! ## A response that was coded -/

/-- Header types that take everything. -/
def anyHeader : HeaderTypes where
  nameFromBytes k := some (lower k)
  valueFromStr := some
  toStr := some
  name_eq _ _ h := (Option.some.inj h).symm
  name_known _ _ := rfl
  value_eq _ _ h := (Option.some.inj h).symm
  value_visible _ _ := rfl
  toStr_visible _ _ := rfl

def gzip : Coding where
  name := "gzip"
  params := ""
  token := ⟨by decide, by decide⟩
  visible := by simp
  begins := by simp

def chunkedCoding : Coding where
  name := "chunked"
  params := ""
  token := ⟨by decide, by decide⟩
  visible := by simp
  begins := by simp

def codedField : Field where
  name := "Transfer-Encoding"
  before := [0x20]
  value := utf8Encode "gzip, chunked"
  after := []
  token := ⟨by decide, by decide⟩
  ows := isOws_space_nil
  noEnd := ⟨by decide, by decide⟩

def abc : Chunk where
  data := [0x61, 0x62, 0x63]
  first := { size := "3", ext := [], magnitude := rfl, isExt := .inl rfl }
  ne := List.cons_ne_nil _ _

theorem coded_gzip : Coded ["gzip, chunked"] where
  lists := by
    have hb : IsBlank "" := by simp [IsBlank]
    have ha : IsBlank " " := by simp [IsBlank]
    have hl : Lists [gzip, chunkedCoding] "gzip, chunked" := .cons gzip hb ha (.one chunkedCoding)
    exact ⟨[[gzip, chunkedCoding]], .cons hl .nil, [gzip], chunkedCoding, rfl,
      List.cons_ne_nil _ _, by decide, by simp [lower, gzip]⟩
  trimmed := by
    intro s hs
    rw [List.mem_singleton.mp hs]
    decide

def codedResponse : Response where
  version := "HTTP/1.1"
  status := 200
  reason := utf8Encode "OK"
  fields := [codedField]
  framing := .coded
    { chunks := [abc]
      last := { size := "0", ext := [], magnitude := rfl, isExt := .inl rfl }
      trailers := [] }
  isWord := by decide
  threeDigits := by decide
  noEnd := ⟨by decide, by decide⟩
  declared := ⟨rfl, ["gzip, chunked"], rfl, coded_gzip⟩

/-- The chunks are returned with their sizes. -/
theorem not_answered_coded : ¬ codedResponse.Answered anyHeader := fun h => fits_of_answered h

end Wandr.Http
