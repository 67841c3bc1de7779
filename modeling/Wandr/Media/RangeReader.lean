import Mathlib.Algebra.Group.Int.Defs
import Mathlib.Algebra.Group.Nat.Defs
import Mathlib.Data.List.Basic
import Wandr.Lib.Machine
import Wandr.Lib.Spans
import Wandr.Lib.Text

/-!
# The range reader

A demuxer wants to read and seek in a file that is on a server. The reader gives it the
file out of a cache of windows, which is filled in two ways: a read that misses fetches a
window and waits for it, as long as the stream does not play; and a task fetches ahead of
the read position. Both ask for a range of the file and put what comes at the start of the
range into the cache (`insertAndEvict`).

The steps are those between which the executor may turn to something else: a read that has
to wait is one step up to its request and another from the answer on, and answers to the
tasks come in between. A server may send less than the range, or the whole file.

* `contiguousEnd_reaches`: the way through the cache comes to its end;
* `Good.upholds`: from a cache that shows the file, a step gives the reader bytes of the file
  and leaves such a cache, unless a whole file answers a request from the middle;
* `reads_file`: a run upholds this if and only if no such answer comes in it.
-/

namespace Wandr.Media

open Machine Spans

/-! ## Fetching a range -/

/-- A range of bytes that is asked for, its last byte included. -/
structure Request where
  start : Nat
  stop : Nat

/-- A response to a request for a range. -/
structure Response where
  status : Nat
  /-- The status in words. -/
  statusText : String
  contentRange : Option String
  contentLength : Option String
  body : Except String (List UInt8)

/-- What comes of a request. -/
inductive Answer
  | badUrl (e : String)
  | failed (e : String)
  | response (r : Response)

/-- The bytes of a range, and the length of the whole. -/
structure Range where
  bytes : List UInt8
  totalLen : Nat

/-- The length that a `Content-Range` ends with. -/
def rangeTotal (h : String) : Option Nat :=
  (Text.splitChar '/' h.toList).getLast?.bind fun s =>
    Text.parseUnsigned 64 (Text.trim (String.ofList s))

/-- Take a partial response or a whole one. -/
def fetchRange : Answer → Except String Range
  | .badUrl e => .error ("bad media url: " ++ e)
  | .failed e => .error ("range fetch: " ++ e)
  | .response r =>
    if r.status ≠ 206 ∧ r.status ≠ 200 then
      .error ("range fetch: unexpected status " ++ r.statusText)
    else
      let totalLen := ((r.contentRange.bind rangeTotal).or
        (r.contentLength.bind (Text.parseUnsigned 64))).getD 0
      match r.body with
      | .error e => .error ("range body: " ++ e)
      | .ok bytes => .ok { bytes, totalLen }

/-! ## The cache -/

/-- The bytes in a window that is fetched. -/
def window : Nat := 2 * 1024 * 1024

/-- How far ahead of the read position the cache is kept. -/
def prefetchAhead : Nat := 8 * 1024 * 1024

/-- The most windows in the cache. -/
def maxChunks : Nat := 12

/-- The windows of the cache, each with its base. -/
abbrev Chunks : Type := List (Nat × List UInt8)

/-- What the reader shares with the task that fetches ahead. -/
structure ReaderShared where
  chunks : Chunks := []
  readPos : Nat := 0
  totalLen : Nat
  inflight : Bool := false
  streaming : Bool := false
  blockingFetches : Nat := 0
  prefetches : Nat := 0

/-- The first window that has a position. -/
def chunkCovering (chunks : Chunks) (off : Nat) : Option (Nat × List UInt8) :=
  chunks.find? (covers off)

/-- The first position from another one on that is not in the cache. -/
def contiguousEnd (chunks : Chunks) (pos : Nat) : Nat := reach chunks (chunks.length + 1) pos

/-- The oldest windows go until there is no one too many. -/
def evict : Chunks → Chunks
  | [] => []
  | c :: cs => if maxChunks < (c :: cs).length then evict cs else c :: cs

/-- Put a window in the cache, unless its first and its last byte are there. -/
def insertAndEvict (s : ReaderShared) (base : Nat) (bytes : List UInt8) : ReaderShared :=
  if bytes.isEmpty then s
  else if (chunkCovering s.chunks base).isSome ∧
      (chunkCovering s.chunks (base + bytes.length - 1)).isSome then s
  else { s with chunks := evict (s.chunks ++ [(base, bytes)]) }

/-- The request for the window at a position. -/
def ReaderShared.request (s : ReaderShared) (start : Nat) : Request :=
  { start, stop := min (start + window - 1) (s.totalLen - 1) }

/-! ## The reader -/

/-- The kinds of error a reader knows. -/
inductive ErrorKind
  | wouldBlock
  | invalidInput
  | other
  deriving DecidableEq

/-- An error of a read or a seek. -/
structure IoError where
  kind : ErrorKind
  text : String
  deriving DecidableEq

/-- What a signed number of 64 bits holds of an integer. -/
def asI64 (n : Int) : Int := n.bmod (2 ^ 64)

/-- Where a seek goes. -/
inductive SeekFrom
  | start (n : Nat)
  | current (d : Int)
  | fromEnd (d : Int)

/-- What the disk does for a reader of a file on it: whether it finds the position, and how
    many bytes it gives for each call, none at the end. -/
structure Disk where
  seek : Except IoError Unit := .ok ()
  reads : List (Except IoError Nat) := []

/-- A reader of a file that is on a server, or on the disk. -/
structure HttpRangeReader where
  shared : ReaderShared
  /-- There is a client to fetch with. -/
  client : Bool
  localFile : Option (List UInt8)
  pos : Nat := 0

namespace HttpRangeReader

/-- A reader of a file on a server. -/
def new (totalLen : Nat) : HttpRangeReader :=
  { shared := { totalLen }, client := true, localFile := none }

/-- A reader of a file on the disk. -/
def newLocal (file : List UInt8) (totalLen : Nat) : HttpRangeReader :=
  { shared := { totalLen }, client := false, localFile := some file }

/-- Read from the disk until there is enough or no more. -/
def readDisk (file : List UInt8) : Nat → Nat → List (Except IoError Nat) →
    Except IoError (List UInt8)
  | _, 0, _ => .ok []
  | _, _, [] => .ok []
  | _, _, .error e :: _ => .error e
  | pos, len + 1, .ok k :: ks =>
    let n := min k (min (len + 1) (file.length - pos))
    if n = 0 then .ok []
    else (readDisk file (pos + n) (len + 1 - n) ks).map ((file.drop pos).take n ++ ·)

/-- Put a fetched window in the cache and count the fetch. -/
def keepFetched (r : HttpRangeReader) (bytes : List UInt8) : HttpRangeReader :=
  let shared := { r.shared with blockingFetches := r.shared.blockingFetches + 1 }
  { r with shared := insertAndEvict shared r.pos bytes }

/-- Give what the cache has at the position. -/
def copyOut (r : HttpRangeReader) (len : Nat) :
    Except IoError (List UInt8) × HttpRangeReader :=
  match chunkCovering r.shared.chunks r.pos with
  | none => (.error { kind := .other, text := "cache miss after fetch" }, r)
  | some (base, data) =>
    let off := r.pos - base
    let n := min (data.length - off) len
    (.ok ((data.drop off).take n), { r with pos := r.pos + n })

/-- Read the window at the position from the disk. -/
def blockFetchLocal (r : HttpRangeReader) (file : List UInt8) (disk : Disk) :
    Except IoError HttpRangeReader :=
  let q := r.shared.request r.pos
  disk.seek.bind fun _ =>
    (readDisk file r.pos (q.stop - q.start + 1) disk.reads).map r.keepFetched

/-- Read into a buffer. Nothing is the result when the read has to wait for an answer. -/
def read (r : HttpRangeReader) (len : Nat) (disk : Disk) :
    Option (Except IoError (List UInt8)) × HttpRangeReader :=
  if r.shared.totalLen ≤ r.pos ∨ len = 0 then (some (.ok []), r)
  else
    let r := { r with shared := { r.shared with readPos := r.pos } }
    if (chunkCovering r.shared.chunks r.pos).isSome then
      (some (r.copyOut len).1, (r.copyOut len).2)
    else if r.localFile.isSome ∨ ¬ r.shared.streaming then
      match r.localFile with
      | some file =>
        match r.blockFetchLocal file disk with
        | .error e => (some (.error e), r)
        | .ok r => (some (r.copyOut len).1, (r.copyOut len).2)
      | none =>
        if r.client then (none, r)
        else (some (.error { kind := .other, text := "no client (local mode)" }), r)
    else (some (.error { kind := .wouldBlock, text := "prefetch not ready" }), r)

/-- Go on with a read after the answer to its request. -/
def answered (r : HttpRangeReader) (len : Nat) (a : Answer) :
    Except IoError (List UInt8) × HttpRangeReader :=
  match fetchRange a with
  | .ok range => (r.keepFetched range.bytes).copyOut len
  | .error e =>
    (.error { kind := .other, text := e },
      { r with shared := { r.shared with blockingFetches := r.shared.blockingFetches + 1 } })

/-- The position that a seek goes to. -/
def seekTarget (r : HttpRangeReader) : SeekFrom → Int
  | .start n => asI64 n
  | .current d => asI64 (asI64 r.pos + d)
  | .fromEnd d => asI64 (asI64 r.shared.totalLen + d)

/-- Go to another position. -/
def seek (r : HttpRangeReader) (f : SeekFrom) : Except IoError Nat × HttpRangeReader :=
  if r.seekTarget f < 0 then (.error { kind := .invalidInput, text := "negative seek" }, r)
  else (.ok (r.seekTarget f).toNat, { r with pos := (r.seekTarget f).toNat })

end HttpRangeReader

/-! ## Fetching ahead -/

/-- How many bytes there are ahead of the read position, and whether it is at the end. -/
def ReaderShared.readyAhead (s : ReaderShared) : Nat × Bool :=
  let e := contiguousEnd s.chunks s.readPos
  (e - s.readPos, s.totalLen ≤ s.readPos || s.totalLen ≤ e)

/-- Where to fetch ahead, when there is not enough in the cache. -/
def ReaderShared.drivePrefetch (s : ReaderShared) : Option Nat :=
  if s.inflight then none
  else
    let e := contiguousEnd s.chunks s.readPos
    if s.totalLen ≤ e ∨ prefetchAhead ≤ e - s.readPos then none else some e

/-- The end of a task that fetched ahead. -/
def ReaderShared.complete (s : ReaderShared) (start : Nat) (a : Answer) : ReaderShared :=
  let s := { s with prefetches := s.prefetches + 1 }
  let s := match fetchRange a with
    | .ok range => insertAndEvict s start range.bytes
    | .error _ => s
  { s with inflight := false }

/-! ## Steps -/

/-- A reader, the tasks that fetch for it, each with where it began, and the length of the
    buffer when a read waits. -/
structure Reading where
  reader : HttpRangeReader
  tasks : List Nat := []
  waiting : Option Nat := none

/-- What happens next. -/
inductive Step
  | read (len : Nat) (disk : Disk)
  | answered (a : Answer)
  | seek (f : SeekFrom)
  | drivePrefetch
  | complete (i : Nat) (a : Answer)
  | markStreaming

/-- What a step gives to the demuxer, and for a read the position it was at and the length of
    the buffer. -/
inductive Reply
  | nothing
  | read (pos len : Nat) (r : Except IoError (List UInt8))
  | sought (r : Except IoError Nat)

namespace Reading

variable (s : Reading)

/-- The demuxer reads. A demuxer whose last read waits does nothing. -/
def read (len : Nat) (disk : Disk) : Reply × Reading :=
  match s.waiting with
  | some _ => (.nothing, s)
  | none =>
    match s.reader.read len disk with
    | (some r, reader) => (.read s.reader.pos len r, { s with reader })
    | (none, reader) => (.nothing, { s with reader, waiting := some len })

/-- The answer for a read that waits. -/
def answered (a : Answer) : Reply × Reading :=
  match s.waiting with
  | none => (.nothing, s)
  | some len =>
    let (r, reader) := s.reader.answered len a
    (.read s.reader.pos len r, { s with reader, waiting := none })

/-- The demuxer seeks. -/
def seek (f : SeekFrom) : Reply × Reading :=
  match s.waiting with
  | some _ => (.nothing, s)
  | none =>
    let (r, reader) := s.reader.seek f
    (.sought r, { s with reader })

/-- The shared part of the reader is changed. -/
def withShared (shared : ReaderShared) : Reading :=
  { s with reader := { s.reader with shared } }

/-- A task is started for the next window. Without a client there is no handle to do it. -/
def drivePrefetch : Reading :=
  if s.reader.client then
    match s.reader.shared.drivePrefetch with
    | none => s
    | some start =>
      { s.withShared { s.reader.shared with inflight := true } with tasks := s.tasks ++ [start] }
  else s

/-- The answer for a task. -/
def complete (i : Nat) (a : Answer) : Reading :=
  match s.tasks[i]? with
  | none => s
  | some start =>
    { s.withShared (s.reader.shared.complete start a) with tasks := s.tasks.eraseIdx i }

/-- The stream plays. -/
def markStreaming : Reading :=
  if s.reader.client then s.withShared { s.reader.shared with streaming := true } else s

/-- Take a step. -/
def step (s : Reading) : Step → Reply × Reading
  | .read len disk => s.read len disk
  | .answered a => s.answered a
  | .seek f => s.seek f
  | .drivePrefetch => (.nothing, s.drivePrefetch)
  | .complete i a => (.nothing, s.complete i a)
  | .markStreaming => (.nothing, s.markStreaming)

/-- The state after a step. -/
def next (s : Reading) (i : Step) : Reading := (s.step i).2

/-- The request that a step brings the answer to. -/
def requestOf : Step → Option (Request × Answer)
  | .answered a => s.waiting.map fun _ => (s.reader.shared.request s.reader.pos, a)
  | .complete i a => s.tasks[i]?.map fun start => (s.reader.shared.request start, a)
  | _ => none

end Reading

/-! ## The way through the cache -/

/-- The way through the cache comes to its end. -/
theorem contiguousEnd_reaches (chunks : Chunks) (pos : Nat) :
    Reaches chunks pos (contiguousEnd chunks pos) := reaches_reach

theorem mem_of_chunkCovering {chunks : Chunks} {off : Nat} {w : Nat × List UInt8}
    (h : chunkCovering chunks off = some w) : w ∈ chunks ∧ w.1 ≤ off ∧ off < stop w :=
  ⟨List.mem_of_find?_eq_some h, covers_iff.1 (List.find?_some h)⟩

theorem chunkCovering_isSome {chunks : Chunks} {off : Nat} {w : Nat × List UInt8}
    (h : w ∈ chunks) (hc : covers off w = true) : (chunkCovering chunks off).isSome :=
  List.find?_isSome.2 ⟨w, h, hc⟩

/-! ## Windows come and go -/

theorem evict_suffix (cs : Chunks) : evict cs <:+ cs := by
  induction cs with
  | nil => exact List.suffix_refl _
  | cons c cs ih =>
    rw [evict]
    split
    · exact ih.trans (List.suffix_cons _ _)
    · exact List.suffix_refl _

theorem length_evict (cs : Chunks) : (evict cs).length ≤ maxChunks := by
  induction cs with
  | nil => exact Nat.zero_le _
  | cons c cs ih =>
    rw [evict]
    split
    · exact ih
    · omega

/-- The newest window stays. -/
theorem mem_evict_append (cs : Chunks) (c : Nat × List UInt8) : c ∈ evict (cs ++ [c]) := by
  induction cs with
  | nil => exact List.mem_singleton_self c
  | cons d cs ih =>
    rw [List.cons_append, evict]
    split
    · exact ih
    · exact List.mem_cons_of_mem _ (List.mem_append_right _ (List.mem_singleton_self c))

/-- The windows of a cache are not empty and show the file, they are not too many, and the
    length is known. -/
structure ReaderShared.Good (F : List UInt8) (s : ReaderShared) : Prop where
  nonempty : ∀ w ∈ s.chunks, w.2 ≠ []
  excerpt : ∀ w ∈ s.chunks, Excerpt F w
  few : s.chunks.length ≤ maxChunks
  total : s.totalLen = F.length

variable {F : List UInt8} {sh : ReaderShared} {base : Nat} {bytes : List UInt8}

/-- Only the windows and the length count. -/
theorem ReaderShared.Good.congr {sh' : ReaderShared} (h : sh.Good F)
    (hc : sh'.chunks = sh.chunks) (ht : sh'.totalLen = sh.totalLen) : sh'.Good F := by
  refine ⟨?_, ?_, ?_, ht.trans h.total⟩ <;> rw [hc]
  · exact h.nonempty
  · exact h.excerpt
  · exact h.few

/-- Putting a window in changes the windows only. -/
theorem insertAndEvict_frame (sh : ReaderShared) (base : Nat) (bytes : List UInt8) :
    ∃ chunks, insertAndEvict sh base bytes = { sh with chunks } ∧
    ∀ w ∈ chunks, w ∈ sh.chunks ∨ w = (base, bytes) ∧ bytes ≠ [] := by
  unfold insertAndEvict
  split
  · exact ⟨sh.chunks, rfl, fun w hw => .inl hw⟩
  · next hb =>
    split
    · exact ⟨sh.chunks, rfl, fun w hw => .inl hw⟩
    · refine ⟨_, rfl, fun w hw => ?_⟩
      rcases List.mem_append.1 ((evict_suffix _).subset hw) with h | h
      · exact .inl h
      · exact .inr ⟨List.mem_singleton.1 h, fun he => hb (by rw [he]; rfl)⟩

theorem length_insertAndEvict (base : Nat) (bytes : List UInt8)
    (h : sh.chunks.length ≤ maxChunks) :
    (insertAndEvict sh base bytes).chunks.length ≤ maxChunks := by
  unfold insertAndEvict
  split
  · exact h
  · split
    · exact h
    · exact length_evict _

/-- A window that shows the file may be put in. -/
theorem ReaderShared.Good.insert (h : sh.Good F) (hw : Excerpt F (base, bytes)) :
    (insertAndEvict sh base bytes).Good F := by
  have hfew := length_insertAndEvict base bytes h.few
  obtain ⟨chunks, he, hmem⟩ := insertAndEvict_frame sh base bytes
  rw [he] at hfew ⊢
  refine ⟨fun w hw' => ?_, fun w hw' => ?_, hfew, h.total⟩
  · rcases hmem w hw' with hm | ⟨rfl, hne⟩
    · exact h.nonempty w hm
    · exact hne
  · rcases hmem w hw' with hm | ⟨rfl, -⟩
    · exact h.excerpt w hm
    · exact hw

/-- Where a window ends that shows the file, the file may end too, but no further. -/
theorem ReaderShared.Good.lt_length (h : sh.Good F) {off : Nat}
    (hc : (chunkCovering sh.chunks off).isSome) : off < F.length := by
  obtain ⟨w, hw⟩ := Option.isSome_iff_exists.1 hc
  obtain ⟨hm, -, hlt⟩ := mem_of_chunkCovering hw
  exact hlt.trans_le ((h.excerpt w hm).stop_le (h.nonempty w hm))

/-- The whole file put in from the middle on shows what the file does not have. -/
theorem ReaderShared.Good.not_excerpt (h : sh.Good F) (h₀ : 0 < base) (hb : base < F.length) :
    ¬ ∀ w ∈ (insertAndEvict sh base F).chunks, Excerpt F w := by
  intro hall
  have hne : F ≠ [] := List.ne_nil_of_length_pos (Nat.zero_lt_of_lt hb)
  -- Its last byte is behind the end of the file, where no window of the cache is.
  have hout : ¬ (chunkCovering sh.chunks (base + F.length - 1)).isSome := fun hc => by
    have hlt := h.lt_length hc
    omega
  have hmem : (base, F) ∈ (insertAndEvict sh base F).chunks := by
    rw [insertAndEvict, if_neg (by simpa using hne), if_neg fun hc => hout hc.2]
    exact mem_evict_append _ _
  have hstop := (hall _ hmem).stop_le hne
  rw [stop] at hstop
  dsimp only at hstop
  omega

/-! ## Answers -/

/-- A server with a file answers a request for a range of it: with a part of the range from
    its start on, or with the whole file. -/
def Serves (F : List UInt8) (q : Request) : Answer → Prop
  | .response r => ∀ bytes, r.body = .ok bytes →
    (r.status = 206 → bytes ≠ [] ∧ bytes <+: (F.drop q.start).take (q.stop + 1 - q.start)) ∧
      (r.status = 200 → bytes = F)
  | _ => True

/-- The whole file answers only a request from the start. -/
def WholeFromStart (q : Request) : Answer → Prop
  | .response r => ∀ bytes, r.body = .ok bytes → r.status = 200 → q.start = 0
  | _ => True

theorem exists_of_fetchRange {a : Answer} {range : Range} (h : fetchRange a = .ok range) :
    ∃ r, a = .response r ∧ r.body = .ok range.bytes ∧ (r.status = 206 ∨ r.status = 200) := by
  cases a with
  | badUrl e => exact nomatch h
  | failed e => exact nomatch h
  | response r =>
    rw [fetchRange] at h
    split at h
    · exact nomatch h
    · next hs =>
      dsimp only at h
      split at h
      · exact nomatch h
      · next hb =>
        cases h
        exact ⟨r, rfl, hb, by omega⟩

/-- What is fetched shows the file. -/
theorem excerpt_of_serves {q : Request} {a : Answer} {range : Range} (hs : Serves F q a)
    (hw : WholeFromStart q a) (h : fetchRange a = .ok range) :
    Excerpt F (q.start, range.bytes) := by
  obtain ⟨r, rfl, hb, hst⟩ := exists_of_fetchRange h
  rcases hst with hst | hst
  · exact ((hs _ hb).1 hst).2.trans (List.take_prefix _ _)
  · rw [Excerpt, (hs _ hb).2 hst, hw _ hb hst]
    exact List.prefix_refl _

theorem ReaderShared.Good.complete (h : sh.Good F) {start : Nat} {a : Answer}
    (he : ∀ range, fetchRange a = .ok range → Excerpt F (start, range.bytes)) :
    (sh.complete start a).Good F := by
  have hp : ReaderShared.Good F { sh with prefetches := sh.prefetches + 1 } := h.congr rfl rfl
  unfold ReaderShared.complete
  cases hf : fetchRange a with
  | ok range => exact (hp.insert (he range hf)).congr rfl rfl
  | error e => exact hp.congr rfl rfl

/-- Otherwise what is fetched is the whole file. -/
theorem whole_of_serves {q : Request} {a : Answer} (hs : Serves F q a)
    (hw : ¬ WholeFromStart q a) : 0 < q.start ∧ ∃ range, fetchRange a = .ok range ∧
      range.bytes = F := by
  cases a with
  | badUrl e => exact absurd trivial hw
  | failed e => exact absurd trivial hw
  | response r =>
    simp only [WholeFromStart, not_forall] at hw
    obtain ⟨bytes, hb, hst, hq⟩ := hw
    refine ⟨Nat.pos_of_ne_zero hq, ?_⟩
    rw [fetchRange, if_neg (by omega), hb]
    exact ⟨_, rfl, (hs _ hb).2 hst⟩

/-! ## What a step gives -/

/-- A demuxer that reads gets what the file has at its position, and something as long as there
    is something and room for it, and the position goes on by what it got. -/
def ReplyRight (F : List UInt8) (pos' : Nat) : Reply → Prop
  | .read pos len (.ok bs) => bs <+: F.drop pos ∧ bs.length ≤ len ∧
      (pos < F.length → 0 < len → 1 ≤ bs.length) ∧ (F.length ≤ pos → bs = []) ∧
      pos' = pos + bs.length
  | .read pos _ (.error _) => pos < F.length ∧ pos' = pos
  | _ => True

/-- The cache holds nothing but the file and no more windows than it may, and the way through
    it from the read position ends, where each byte on the way is in the cache. -/
structure CacheRight (F : List UInt8) (sh : ReaderShared) : Prop where
  excerpt : ∀ w ∈ sh.chunks, Excerpt F w
  few : sh.chunks.length ≤ maxChunks
  ends : Reaches sh.chunks sh.readPos (contiguousEnd sh.chunks sh.readPos)
  cached : ∀ x, sh.readPos ≤ x → x < contiguousEnd sh.chunks sh.readPos →
    (chunkCovering sh.chunks x).isSome

theorem ReaderShared.Good.cacheRight (h : sh.Good F) : CacheRight F sh := by
  have hr := contiguousEnd_reaches sh.chunks sh.readPos
  refine ⟨h.excerpt, h.few, hr, fun x hx hlt => ?_⟩
  obtain ⟨w, hw, hc⟩ := hr.covered hx hlt
  exact chunkCovering_isSome hw hc

namespace HttpRangeReader

variable {r : HttpRangeReader} {len : Nat} {disk : Disk}

/-- A reader has a good cache, and its file when it is one on the disk. -/
structure Good (F : List UInt8) (r : HttpRangeReader) : Prop where
  shared : r.shared.Good F
  localFile : ∀ file, r.localFile = some file → file = F

theorem copyOut_shared : (r.copyOut len).2.shared = r.shared := by
  unfold copyOut
  split <;> rfl

theorem copyOut_localFile : (r.copyOut len).2.localFile = r.localFile := by
  unfold copyOut
  split <;> rfl

theorem Good.copyOut (h : r.Good F) : (r.copyOut len).2.Good F := by
  constructor
  · rw [copyOut_shared]
    exact h.shared
  · rw [copyOut_localFile]
    exact h.localFile

theorem Good.copyOut_right (h : r.Good F) (hp : r.pos < F.length) :
    ReplyRight F (r.copyOut len).2.pos (.read r.pos len (r.copyOut len).1) := by
  unfold HttpRangeReader.copyOut
  split
  · exact ⟨hp, rfl⟩
  · next base data hc =>
    obtain ⟨hm, hle, hlt⟩ := mem_of_chunkCovering hc
    have hdrop := (h.shared.excerpt _ hm).take_drop hle (min (data.length - (r.pos - base)) len)
    have hlen : ((data.drop (r.pos - base)).take
        (min (data.length - (r.pos - base)) len)).length =
        min (data.length - (r.pos - base)) len := by
      rw [List.length_take, List.length_drop]
      omega
    dsimp only [stop] at hle hlt
    refine ⟨hdrop, ?_, fun _ hl => ?_, fun hge => absurd hp (by omega), ?_⟩
    · rw [hlen]
      exact Nat.min_le_right _ _
    · rw [hlen]
      omega
    · rw [hlen]

/-- What is read from the disk is what the file has there. -/
theorem readDisk_excerpt {file : List UInt8} {pos : Nat} {ks : List (Except IoError Nat)}
    (h : readDisk file pos len ks = .ok bytes) : bytes <+: file.drop pos := by
  induction ks generalizing pos len bytes with
  | nil =>
    cases len <;> cases h <;> exact List.nil_prefix
  | cons k ks ih =>
    cases len with
    | zero => cases h; exact List.nil_prefix
    | succ len =>
      cases k with
      | error e => exact nomatch h
      | ok k =>
        rw [readDisk] at h
        split at h
        · cases h
          exact List.nil_prefix
        · generalize min k (min (len + 1) (file.length - pos)) = n at h
          cases hr : readDisk file (pos + n) (len + 1 - n) ks with
          | error e => rw [hr] at h; exact nomatch h
          | ok rest =>
            rw [hr] at h
            cases h
            have hp := ih hr
            rw [← List.drop_drop] at hp
            have ht := (List.prefix_append_right_inj ((file.drop pos).take n)).2 hp
            rwa [List.take_append_drop] at ht

theorem Good.keepFetched (h : r.Good F) (hb : Excerpt F (r.pos, bytes)) :
    (r.keepFetched bytes).Good F :=
  have hc : ReaderShared.Good F
      { r.shared with blockingFetches := r.shared.blockingFetches + 1 } := h.shared.congr rfl rfl
  ⟨hc.insert hb, h.localFile⟩

theorem exists_of_blockFetchLocal {file : List UInt8} {r' : HttpRangeReader}
    (h : r.blockFetchLocal file disk = .ok r') :
    ∃ bytes, r' = r.keepFetched bytes ∧ bytes <+: file.drop r.pos := by
  unfold blockFetchLocal at h
  cases hs : disk.seek with
  | error e => rw [hs] at h; exact nomatch h
  | ok u =>
    rw [hs] at h
    dsimp only [Except.bind] at h
    cases hr : readDisk file r.pos ((r.shared.request r.pos).stop -
        (r.shared.request r.pos).start + 1) disk.reads with
    | error e => rw [hr] at h; exact nomatch h
    | ok bytes =>
      rw [hr] at h
      cases h
      exact ⟨bytes, rfl, readDisk_excerpt hr⟩

/-- A read gives bytes of the file, or an error, or waits at a position in the file. -/
theorem Good.read (h : r.Good F) (len : Nat) (disk : Disk) : (r.read len disk).2.Good F ∧
    (∀ x, (r.read len disk).1 = some x →
      ReplyRight F (r.read len disk).2.pos (.read r.pos len x)) ∧
    ((r.read len disk).1 = none → (r.read len disk).2.pos < F.length ∧ 0 < len) := by
  unfold HttpRangeReader.read
  split
  · next hz =>
    refine ⟨h, ?_, nofun⟩
    rintro _ ⟨⟩
    rw [h.shared.total] at hz
    exact ⟨List.nil_prefix, Nat.zero_le _, fun hp hl => by omega, fun _ => rfl, rfl⟩
  · next hz =>
    rw [h.shared.total, not_or, Nat.not_le] at hz
    obtain ⟨hp, hl⟩ := hz
    have h' : Good F { r with shared := { r.shared with readPos := r.pos } } :=
      ⟨h.shared.congr rfl rfl, h.localFile⟩
    dsimp only
    split
    · refine ⟨h'.copyOut, ?_, nofun⟩
      rintro _ ⟨⟩
      exact h'.copyOut_right hp
    · split
      · split
        · next file hf =>
          obtain rfl := h.localFile file hf
          split
          · refine ⟨h', ?_, nofun⟩
            rintro _ ⟨⟩
            exact ⟨hp, rfl⟩
          · next r' hr =>
            obtain ⟨bytes, rfl, hb⟩ := exists_of_blockFetchLocal hr
            have hk := h'.keepFetched hb
            refine ⟨hk.copyOut, ?_, nofun⟩
            rintro _ ⟨⟩
            exact hk.copyOut_right hp
        · split
          · exact ⟨h', nofun, fun _ => ⟨hp, Nat.pos_of_ne_zero hl⟩⟩
          · refine ⟨h', ?_, nofun⟩
            rintro _ ⟨⟩
            exact ⟨hp, rfl⟩
      · refine ⟨h', ?_, nofun⟩
        rintro _ ⟨⟩
        exact ⟨hp, rfl⟩

theorem Good.seek (h : r.Good F) (f : SeekFrom) : (r.seek f).2.Good F := by
  unfold HttpRangeReader.seek
  split
  · exact h
  · exact ⟨h.shared, h.localFile⟩

end HttpRangeReader

/-! ## Runs -/

namespace Reading

variable {s : Reading} {i : Step}

/-- The answers are those of a server with the file. -/
def Served (F : List UInt8) (s : Reading) (i : Step) : Prop :=
  ∀ q a, s.requestOf i = some (q, a) → Serves F q a

/-- No whole file answers a request from the middle. -/
def FromStart (s : Reading) (i : Step) : Prop :=
  ∀ q a, s.requestOf i = some (q, a) → WholeFromStart q a

/-- A step gives the demuxer what the file has, and leaves a cache that shows the file. -/
def Upholds (F : List UInt8) (s : Reading) (i : Step) : Prop :=
  ReplyRight F (s.next i).reader.pos (s.step i).1 ∧ CacheRight F (s.next i).reader.shared

/-- The cache is good, and there are requests for positions of the file only. -/
structure Good (F : List UInt8) (s : Reading) : Prop where
  reader : s.reader.Good F
  tasks : ∀ start ∈ s.tasks, start < F.length
  waiting : ∀ len, s.waiting = some len → s.reader.pos < F.length ∧ 0 < len

theorem Good.new (F : List UInt8) : Good F { reader := .new F.length } :=
  ⟨⟨⟨nofun, nofun, Nat.zero_le _, rfl⟩, nofun⟩, nofun, nofun⟩

theorem Good.newLocal (F : List UInt8) : Good F { reader := .newLocal F F.length } :=
  ⟨⟨⟨nofun, nofun, Nat.zero_le _, rfl⟩, fun _ h => (Option.some.inj h).symm⟩, nofun, nofun⟩

theorem Good.read (h : s.Good F) (len : Nat) (disk : Disk) :
    (s.read len disk).2.Good F ∧
      ReplyRight F (s.read len disk).2.reader.pos (s.read len disk).1 := by
  unfold Reading.read
  split
  · exact ⟨h, trivial⟩
  · next hw =>
    obtain ⟨hg, hr, hn⟩ := h.reader.read len disk
    split
    · next x reader he =>
      rw [he] at hg hr
      exact ⟨⟨hg, h.tasks, fun l hl => absurd (hw.symm.trans hl) nofun⟩, hr x rfl⟩
    · next reader he =>
      rw [he] at hg hn
      exact ⟨⟨hg, h.tasks, fun l hl => Option.some.inj hl ▸ hn rfl⟩, trivial⟩

/-- After an answer that shows the file the read gives bytes of it. -/
theorem Good.answered (h : s.Good F) {a : Answer} (hs : Served F s (.answered a))
    (hw : FromStart s (.answered a)) :
    (s.answered a).2.Good F ∧ ReplyRight F (s.answered a).2.reader.pos (s.answered a).1 := by
  unfold Reading.answered
  split
  · exact ⟨h, trivial⟩
  · next len hl =>
    have hp := (h.waiting len hl).1
    have hq : s.requestOf (.answered a) = some (s.reader.shared.request s.reader.pos, a) := by
      rw [requestOf, hl]
      rfl
    dsimp only [HttpRangeReader.answered]
    split
    · next range hf =>
      have hk := h.reader.keepFetched (excerpt_of_serves (hs _ _ hq) (hw _ _ hq) hf)
      exact ⟨⟨hk.copyOut, h.tasks, nofun⟩, hk.copyOut_right hp⟩
    · exact ⟨⟨⟨h.reader.shared.congr rfl rfl, h.reader.localFile⟩, h.tasks, nofun⟩, hp, rfl⟩

theorem Good.seek (h : s.Good F) (f : SeekFrom) : (s.seek f).2.Good F := by
  unfold Reading.seek
  split
  · exact h
  · next hw =>
    exact ⟨h.reader.seek f, h.tasks, fun l hl => absurd (hw.symm.trans hl) nofun⟩

theorem Good.drivePrefetch (h : s.Good F) : s.drivePrefetch.Good F := by
  unfold Reading.drivePrefetch ReaderShared.drivePrefetch
  split
  · split
    · exact h
    · next start hd =>
      refine ⟨⟨h.reader.shared.congr rfl rfl, h.reader.localFile⟩, fun st hst => ?_, h.waiting⟩
      rcases List.mem_append.1 hst with hm | hm
      · exact h.tasks st hm
      · -- A task begins where the cache ends, and only when that is before the end of the file.
        obtain rfl := List.mem_singleton.1 hm
        split at hd
        · exact nomatch hd
        · dsimp only at hd
          split at hd
          · exact nomatch hd
          · next hlt =>
            cases hd
            rw [h.reader.shared.total] at hlt
            omega
  · exact h

theorem Good.complete (h : s.Good F) {n : Nat} {a : Answer} (hs : Served F s (.complete n a))
    (hw : FromStart s (.complete n a)) : (s.complete n a).Good F := by
  unfold Reading.complete
  split
  · exact h
  · next start ht =>
    have hq : s.requestOf (.complete n a) = some (s.reader.shared.request start, a) := by
      rw [requestOf, ht]
      rfl
    refine ⟨⟨h.reader.shared.complete fun range hf => ?_, h.reader.localFile⟩,
      fun st hst => h.tasks st (List.mem_of_mem_eraseIdx hst), h.waiting⟩
    exact excerpt_of_serves (hs _ _ hq) (hw _ _ hq) hf

theorem Good.markStreaming (h : s.Good F) : s.markStreaming.Good F := by
  unfold Reading.markStreaming
  split
  · exact ⟨⟨h.reader.shared.congr rfl rfl, h.reader.localFile⟩, h.tasks, h.waiting⟩
  · exact h

/-- A step whose answer shows the file gives what the file has, and leaves a good cache. -/
theorem Good.step (h : s.Good F) (hs : Served F s i) (hw : FromStart s i) :
    (s.next i).Good F ∧ ReplyRight F (s.next i).reader.pos (s.step i).1 := by
  cases i with
  | read len disk => exact h.read len disk
  | answered a => exact h.answered hs hw
  | seek f =>
    refine ⟨h.seek f, ?_⟩
    dsimp only [next, Reading.step, Reading.seek]
    split <;> exact trivial
  | drivePrefetch => exact ⟨h.drivePrefetch, trivial⟩
  | complete n a => exact ⟨h.complete hs hw, trivial⟩
  | markStreaming => exact ⟨h.markStreaming, trivial⟩

/-- A whole file that answers a request from the middle leaves a cache that shows what the
    file does not have. -/
theorem Good.not_cacheRight (h : s.Good F) (hs : Served F s i) (hw : ¬ FromStart s i) :
    ¬ CacheRight F (s.next i).reader.shared := by
  intro hc
  simp only [FromStart, not_forall] at hw
  obtain ⟨q, a, hq, hw⟩ := hw
  obtain ⟨hpos, range, hf, hb⟩ := whole_of_serves (hs q a hq) hw
  cases i with
  | answered b =>
    cases hl : s.waiting with
    | none => rw [requestOf, hl] at hq; exact nomatch hq
    | some len =>
      rw [requestOf, hl] at hq
      cases hq
      have hg : ReaderShared.Good F
          { s.reader.shared with blockingFetches := s.reader.shared.blockingFetches + 1 } :=
        h.reader.shared.congr rfl rfl
      refine hg.not_excerpt hpos (h.waiting len hl).1 ?_
      have he := hc.excerpt
      simp only [next, Reading.step, Reading.answered, hl, HttpRangeReader.answered, hf, hb] at he
      rw [HttpRangeReader.copyOut_shared] at he
      exact he
  | complete n b =>
    cases ht : s.tasks[n]? with
    | none => rw [requestOf, ht] at hq; exact nomatch hq
    | some start =>
      rw [requestOf, ht] at hq
      cases hq
      have hg : ReaderShared.Good F
          { s.reader.shared with prefetches := s.reader.shared.prefetches + 1 } :=
        h.reader.shared.congr rfl rfl
      refine hg.not_excerpt hpos (h.tasks start (List.mem_of_getElem? ht)) ?_
      have he := hc.excerpt
      simp only [next, Reading.step, Reading.complete, ht, withShared, ReaderShared.complete, hf,
        hb] at he
      exact he
  | read len disk => exact nomatch hq
  | seek f => exact nomatch hq
  | drivePrefetch => exact nomatch hq
  | markStreaming => exact nomatch hq

/-- From a good cache a step does as it should if and only if no whole file answers a request
    from the middle. -/
theorem Good.upholds (h : s.Good F) (hs : Served F s i) : Upholds F s i ↔ FromStart s i := by
  constructor
  · intro hu
    by_contra hw
    exact h.not_cacheRight hs hw hu.2
  · intro hw
    obtain ⟨hg, hr⟩ := h.step hs hw
    exact ⟨hr, hg.reader.shared.cacheRight⟩

end Reading

/-- What has been opened for a file: a reader of it on a server, or on the disk. -/
inductive Opened (F : List UInt8) : Reading → Prop
  | remote : Opened F { reader := .new F.length }
  | onDisk : Opened F { reader := .newLocal F F.length }

theorem Opened.good {F : List UInt8} {s : Reading} (h : Opened F s) : s.Good F := by
  cases h with
  | remote => exact .new F
  | onDisk => exact .newLocal F

/-- In a run of a reader of a file whose answers come from a server with the file, each step
    does as it should if and only if no whole file answers a request from the middle. -/
theorem reads_file {F : List UInt8} {s : Reading} {is : List Step} (ho : Opened F s)
    (hs : Goes Reading.next (Reading.Served F) s is) :
    Goes Reading.next (Reading.Upholds F) s is ↔ Goes Reading.next Reading.FromStart s is := by
  suffices hg : ∀ s : Reading, s.Good F → Goes Reading.next (Reading.Served F) s is →
      (Goes Reading.next (Reading.Upholds F) s is ↔ Goes Reading.next Reading.FromStart s is)
    from hg s ho.good hs
  clear ho hs s
  induction is with
  | nil => exact fun _ _ _ => Iff.rfl
  | cons i is ih =>
    intro s hg hs
    rw [Goes, Goes, hg.upholds hs.1]
    refine and_congr_right fun hw => ?_
    exact ih _ (hg.step hs.1 hw).1 hs.2

/-- Three bytes are read in two windows that overlap, the second one fetched ahead. -/
theorem reads_file_sample :
    Goes Reading.next (Reading.Upholds [1, 2, 3]) { reader := .new 3 }
      [.read 8 {}, .answered (.response ⟨206, "", none, none, .ok [1, 2]⟩), .drivePrefetch,
        .markStreaming, .read 1 {}, .complete 0 (.response ⟨206, "", none, none, .ok [3]⟩),
        .read 8 {}] := by
  refine (reads_file .remote ?_).2 ?_
  · refine ⟨nofun, ?_, nofun, nofun, nofun, ?_, nofun, trivial⟩
    all_goals
      rintro _ _ ⟨⟩ _ ⟨⟩
      exact ⟨fun _ => ⟨List.cons_ne_nil _ _, by decide⟩, nofun⟩
  · refine ⟨nofun, ?_, nofun, nofun, nofun, ?_, nofun, trivial⟩
    all_goals
      rintro _ _ ⟨⟩ _ ⟨⟩
      exact nofun

/-- A server that does not know of ranges sends the whole file when the bytes from the third
    on are asked for: then the third byte read is the first. -/
theorem whole_file_in_the_middle :
    Goes Reading.next (Reading.Served [1, 2, 3]) { reader := .new 3 }
      [.seek (.start 2), .read 1 {}, .answered (.response ⟨200, "", none, none, .ok [1, 2, 3]⟩)] ∧
    ¬ Goes Reading.next (Reading.Upholds [1, 2, 3]) { reader := .new 3 }
      [.seek (.start 2), .read 1 {},
        .answered (.response ⟨200, "", none, none, .ok [1, 2, 3]⟩)] := by
  constructor
  · refine ⟨nofun, nofun, ?_, trivial⟩
    rintro _ _ ⟨⟩ _ ⟨⟩
    exact ⟨nofun, fun _ => rfl⟩
  · intro h
    exact absurd h.2.2.1.1.1 (by decide)

end Wandr.Media
