import Mathlib.Data.Finset.Max
import Mathlib.Data.List.Find
import Wandr.Call.Twcc
import Wandr.Lib.StableSort

/-!
# What a report says

A report is on a span of numbers, of which those that were recorded are received. The batch it is
made from holds the first arrival of each of them in the order of the numbers (`batch_eq`), the
fold over it sets one symbol for each and appends one delta (`foldl_mark`), and the symbols are
cut into chunks of seven.

* `TwccTracker.poll_content`: what a poll that is due reports.
-/

namespace Wandr

open Serial

namespace TwccTracker

variable {lo first : UInt16} {n : Nat} {pkts : List (UInt16 × Int)}

/-- The numbers recorded are within `n` of `lo`, and both ends are among them. -/
structure Spans (pkts : List (UInt16 × Int)) (lo : UInt16) (n : Nat) : Prop where
  small : n ≤ 0x7FFF
  within : ∀ p ∈ pkts, (p.1 - lo).toNat < n
  least : ∃ p ∈ pkts, p.1 = lo
  greatest : ∃ p ∈ pkts, p.1 = lo + UInt16.ofNat (n - 1)

/-- The first arrival of each number of a span. -/
def arrivals (lo : UInt16) (n : Nat) (pkts : List (UInt16 × Int)) : List (UInt16 × Int) :=
  (List.range n).filterMap fun i => pkts.find? fun p => p.1 = lo + UInt16.ofNat i

/-! ## The batch -/

/-- Within a span the wrapping distance is the difference of the offsets. -/
theorem distance_offset {s t : UInt16} (hn : n ≤ 0x7FFF) (hs : (s - lo).toNat < n)
    (ht : (t - lo).toNat < n) : distance s t = (s - lo).toNat - (t - lo).toNat := by
  have hd : distance s t = ((s - t).toNat : Int).bmod (2 ^ 16) := by
    rw [distance]
    exact BitVec.toInt_eq_toNat_bmod _
  rw [hd]
  rw [UInt16.toNat_sub] at hs ht ⊢
  have h₁ := s.toNat_lt
  have h₂ := t.toNat_lt
  have h₃ := lo.toNat_lt
  rw [UInt16.toNat_sub, UInt16.toNat_sub, Int.bmod_def]
  split <;> omega

/-- What is ahead of `t`, as seen from a third number. -/
theorem toNat_sub_distance {s t : UInt16} (hle : distance t first ≤ distance s first)
    (hlt : distance s first < distance t first + 2 ^ 16) :
    ((s - t).toNat : Int) = distance s first - distance t first := by
  have hs := toNat_wrap (u := distance s first)
  have ht := toNat_wrap (u := distance t first)
  rw [← add_wrap_distance (s := s) (t := first), ← add_wrap_distance (s := t) (t := first),
    UInt16.toNat_sub, UInt16.toNat_add, UInt16.toNat_add, add_wrap_distance, add_wrap_distance]
  have h₁ := (wrap (distance s first)).toNat_lt
  have h₂ := (wrap (distance t first)).toNat_lt
  have h₃ := first.toNat_lt
  omega

theorem distance_inj {s t : UInt16} : s = t ↔ distance s first = distance t first := by
  constructor
  · intro h
    rw [h]
  · intro h
    rw [← add_wrap_distance (s := s) (t := first), h, add_wrap_distance]

/-- A number of the span has its offset. -/
theorem eq_add_iff {s : UInt16} {i : Nat} (hi : i < 2 ^ 16) :
    s = lo + UInt16.ofNat i ↔ (s - lo).toNat = i := by
  constructor
  · intro h
    rw [h, UInt16.add_comm, UInt16.add_sub_cancel, UInt16.toNat_ofNat', Nat.mod_eq_of_lt hi]
  · intro h
    rw [← h, UInt16.ofNat_toNat, UInt16.add_comm, UInt16.sub_add_cancel]

theorem batch_ne_nil (h : pkts ≠ []) : batch first pkts ≠ [] := by
  obtain ⟨p, hp⟩ := List.exists_mem_of_ne_nil pkts h
  obtain ⟨q, hq, -⟩ : ∃ q ∈ batch first pkts, q.1 = p.1 := exists_mem_batch hp
  exact List.ne_nil_of_mem hq

/-- The batch is made of the first arrival of each number. -/
theorem batch_eq (h : Spans pkts lo n) (hf : (first - lo).toNat < n) :
    batch first pkts = arrivals lo n pkts := by
  have hd {p : UInt16 × Int} (hp : p ∈ pkts) :
      distance p.1 first = (p.1 - lo).toNat - (first - lo).toNat :=
    distance_offset h.small (h.within p hp) hf
  rw [batch, List.destutter_insertionSort (f := fun p : UInt16 × Int => distance p.1 first)
    (g := Prod.fst) (m := -((first - lo).toNat : Int)) (n := n) (fun a b => distance_inj)
    fun p hp => ?_, arrivals]
  · refine List.filterMap_congr fun i hi => List.find?_congr fun p hp => ?_
    have hi : i < n := List.mem_range.mp hi
    have hs := h.small
    rw [decide_eq_decide, hd hp, eq_add_iff (by omega)]
    omega
  · have hw := h.within p hp
    rw [hd hp]
    omega

/-! ## The fold over the batch -/

/-- A difference of arrivals as far as it can be sent. -/
def clampDelta (d : Int) : Int := max (-32768 * 250) (min (32767 * 250) d)

/-- The type a difference is sent with. -/
def symbolOf (d : Int) : SymbolTypeTcc :=
  if 0 ≤ d ∧ d ≤ 255 * 250 then .packetReceivedSmallDelta else .packetReceivedLargeDelta

/-- The differences of arrivals, each from the one before. -/
def deltas : Int → List (UInt16 × Int) → List (SymbolTypeTcc × Int)
  | _, [] => []
  | prev, p :: ps =>
    (symbolOf (clampDelta (p.2 - prev)), clampDelta (p.2 - prev)) :: deltas p.2 ps

/-- The time a report begins with, in units of 64 ms. -/
def reference : List (UInt16 × Int) → Int
  | [] => 0
  | p :: _ => p.2.tdiv 64000 % 2 ^ 24

/-- Symbols say that a number was received. -/
def Received (symbols : List SymbolTypeTcc) (i : Nat) : Prop :=
  ∃ s, symbols[i]? = some s ∧ s ≠ .packetNotReceived

/-- The symbols of the numbers received. -/
def received (symbols : List SymbolTypeTcc) : List SymbolTypeTcc :=
  symbols.filter fun s => s ≠ .packetNotReceived

variable {k : Marks} {b : List (UInt16 × Int)} {symbols : List SymbolTypeTcc} {s : SymbolTypeTcc}
  {i j : Nat}

theorem symbolOf_ne {d : Int} : symbolOf d ≠ .packetNotReceived := by
  unfold symbolOf
  split <;> decide

theorem mark_eq {p : UInt16 × Int} : mark lo k p =
    { prevUs := p.2
      symbols := k.symbols.set (distance p.1 lo).toNat (symbolOf (clampDelta (p.2 - k.prevUs)))
      recvDeltas := k.recvDeltas ++
        [(symbolOf (clampDelta (p.2 - k.prevUs)), clampDelta (p.2 - k.prevUs))] } := rfl

theorem recvDeltas_foldl_mark :
    (b.foldl (mark lo) k).recvDeltas = k.recvDeltas ++ deltas k.prevUs b := by
  induction b generalizing k with
  | nil => simp [deltas]
  | cons p b ih =>
    rw [List.foldl_cons, ih, mark_eq]
    simp [deltas]

theorem received_set (hs : s ≠ .packetNotReceived) (hj : j < symbols.length) :
    Received (symbols.set j s) i ↔ Received symbols i ∨ i = j := by
  unfold Received
  rw [List.getElem?_set]
  by_cases h : j = i
  · subst h
    simp [hj, hs]
  · simp [h, Ne.symm h]

/-- The fold says of the numbers of the batch that they were received, and of no others. -/
theorem received_foldl_mark (hb : ∀ p ∈ b, (distance p.1 lo).toNat < k.symbols.length) :
    Received (b.foldl (mark lo) k).symbols i ↔
      Received k.symbols i ∨ ∃ p ∈ b, (distance p.1 lo).toNat = i := by
  induction b generalizing k with
  | nil => simp
  | cons p b ih =>
    obtain ⟨hp, hb⟩ := List.forall_mem_cons.mp hb
    rw [List.foldl_cons, ih (by simpa [mark_eq] using hb), mark_eq, received_set symbolOf_ne hp,
      List.exists_mem_cons_iff, or_assoc, eq_comm]

theorem length_foldl_mark : (b.foldl (mark lo) k).symbols.length = k.symbols.length := by
  induction b generalizing k with
  | nil => rfl
  | cons p b ih => rw [List.foldl_cons, ih, mark_eq, List.length_set]

/-- A symbol set where nothing was received from there on. -/
theorem filter_set (hs : s ≠ .packetNotReceived) (hj : j < symbols.length)
    (hrest : ∀ x ∈ symbols.drop j, x = .packetNotReceived) :
    received (symbols.set j s) = received symbols ++ [s] := by
  have hnone {l : List SymbolTypeTcc} (hl : ∀ x ∈ l, x = .packetNotReceived) : received l = [] :=
    List.filter_eq_nil_iff.mpr fun x hx => by simp [hl x hx]
  have htail : ∀ x ∈ symbols.drop (j + 1), x = .packetNotReceived := fun x hx =>
    hrest x (List.drop_subset_drop_left _ (Nat.le_succ j) hx)
  have hl : received symbols = received (symbols.take j) := by
    conv_lhs => rw [← List.take_append_drop j symbols]
    rw [received, List.filter_append, ← received, ← received, hnone hrest, List.append_nil]
  rw [List.set_eq_take_append_cons_drop, if_pos hj, hl, received, List.filter_append, ← received,
    List.filter_cons_of_pos (by simpa using hs), ← received, hnone htail]

/-- The symbols received are those of the deltas, in the same order. -/
theorem filter_foldl_mark
    (hinc : b.Pairwise fun p q => (distance p.1 lo).toNat < (distance q.1 lo).toNat)
    (hb : ∀ p ∈ b, j ≤ (distance p.1 lo).toNat ∧ (distance p.1 lo).toNat < k.symbols.length)
    (hrest : ∀ x ∈ k.symbols.drop j, x = .packetNotReceived) :
    received (b.foldl (mark lo) k).symbols =
      received k.symbols ++ (deltas k.prevUs b).map Prod.fst := by
  induction b generalizing k j with
  | nil => simp [deltas]
  | cons p b ih =>
    obtain ⟨hp, hinc⟩ := List.pairwise_cons.mp hinc
    obtain ⟨⟨hj, hlen⟩, hb⟩ := List.forall_mem_cons.mp hb
    have hfrom : ∀ x ∈ k.symbols.drop (distance p.1 lo).toNat, x = .packetNotReceived :=
      fun x hx => hrest x (List.drop_subset_drop_left _ hj hx)
    rw [List.foldl_cons, ih (j := (distance p.1 lo).toNat + 1) hinc (fun q hq => ?_) fun x hx => ?_,
      mark_eq, filter_set symbolOf_ne hlen hfrom, List.append_assoc]
    · rfl
    · rw [mark_eq, List.length_set]
      exact ⟨hp q hq, (hb q hq).2⟩
    · rw [mark_eq, List.drop_set_of_lt (Nat.lt_succ_self _)] at hx
      exact hfrom x (List.drop_subset_drop_left _ (Nat.le_succ _) hx)

/-! ## The chunks -/

/-- A chunk of seven symbols. -/
def pad (c : List SymbolTypeTcc) : List SymbolTypeTcc :=
  c ++ List.replicate (7 - c.length) .packetNotReceived

/-- The chunks, when `a` is of the chunk begun and `d` are those before it. -/
theorem flatten_go {a : Array SymbolTypeTcc} {d : Array (List SymbolTypeTcc)}
    (ha : a.size ≤ 7) (hd : ∀ c ∈ d, c.length ≤ 7) :
    (∀ c ∈ List.toChunks.go 7 symbols a d, c.length ≤ 7) ∧
      ∃ m, ((List.toChunks.go 7 symbols a d).map pad).flatten =
        (d.toList.map pad).flatten ++ a.toList ++ symbols ++
          List.replicate m .packetNotReceived := by
  induction symbols generalizing a d with
  | nil =>
    refine ⟨?_, 7 - a.size, ?_⟩
    · intro c hc
      rw [List.toChunks.go, Array.toList_push] at hc
      rcases List.mem_append.mp hc with hc | hc
      · exact hd c (Array.mem_def.mpr hc)
      · rw [List.mem_singleton.mp hc, Array.length_toList]
        exact ha
    · rw [List.toChunks.go, Array.toList_push]
      simp [pad]
  | cons x symbols ih =>
    rw [List.toChunks.go]
    split
    · next hfull =>
      have hfull : a.size = 7 := by simpa using hfull
      obtain ⟨hl, m, hm⟩ := ih (a := (Array.mkEmpty 7).push x) (d := d.push a.toList)
        (by simp) fun c hc => by
          rcases Array.mem_push.mp hc with hc | rfl
          · exact hd c hc
          · rw [Array.length_toList, hfull]
      refine ⟨hl, m, hm.trans ?_⟩
      simp [pad, hfull]
    · next hmore =>
      have hmore : a.size < 7 := by
        have hne : a.size ≠ 7 := by simpa using hmore
        omega
      obtain ⟨hl, m, hm⟩ := ih (a := a.push x) (by rw [Array.size_push]; omega) hd
      refine ⟨hl, m, hm.trans ?_⟩
      simp

/-- The chunks are of seven symbols each, and hold the symbols with some for nothing received at
    the end. -/
theorem flatten_chunk (symbols : List SymbolTypeTcc) : (∀ c ∈ chunk symbols, c.length = 7) ∧
    ∃ m, (chunk symbols).flatten = symbols ++ List.replicate m .packetNotReceived := by
  have hall : (∀ c ∈ symbols.toChunks 7, c.length ≤ 7) ∧ ∃ m,
      ((symbols.toChunks 7).map pad).flatten =
        symbols ++ List.replicate m .packetNotReceived := by
    cases symbols with
    | nil => exact ⟨by simp [List.toChunks], 0, by simp [List.toChunks]⟩
    | cons x symbols =>
      have h : (∀ c ∈ List.toChunks.go 7 symbols #[x] #[], c.length ≤ 7) ∧ ∃ m, _ = _ :=
        flatten_go (by simp) (by simp)
      simpa [List.toChunks] using h
  refine ⟨fun c hc => ?_, hall.2⟩
  obtain ⟨c', hc', rfl⟩ := List.mem_map.mp hc
  have hl := hall.1 c' hc'
  rw [List.length_append, List.length_replicate]
  omega

/-! ## The report -/

variable {t : TwccTracker} {now : Nat} {ssrc : UInt32}

/-- Numbers within a span that is not too wide have a least one and a greatest one. -/
theorem exists_spans (hn : n ≤ 0x7FFF) (hne : pkts ≠ [])
    (h : ∀ p ∈ pkts, (p.1 - lo).toNat < n) : ∃ lo m, m ≤ n ∧ Spans pkts lo m := by
  have hsome : pkts.toFinset.Nonempty := List.toFinset_nonempty_iff pkts |>.mpr hne
  obtain ⟨p, hp, hleast⟩ := Finset.exists_min_image _ (fun p => (p.1 - lo).toNat) hsome
  obtain ⟨q, hq, hgreatest⟩ := Finset.exists_max_image _ (fun p => (p.1 - lo).toNat) hsome
  simp only [List.mem_toFinset] at hp hq hleast hgreatest
  have hoff {r : UInt16 × Int} (hr : r ∈ pkts) :
      (r.1 - p.1).toNat = (r.1 - lo).toNat - (p.1 - lo).toNat := by
    have hle := hleast r hr
    rw [UInt16.toNat_sub, UInt16.toNat_sub] at hle ⊢
    have h₁ := r.1.toNat_lt
    have h₂ := p.1.toNat_lt
    have h₃ := lo.toNat_lt
    rw [UInt16.toNat_sub]
    omega
  have hw := h q hq
  refine ⟨p.1, (q.1 - lo).toNat - (p.1 - lo).toNat + 1, by omega, by omega, fun r hr => ?_,
    ⟨p, hp, rfl⟩, ⟨q, hq, ?_⟩⟩
  · have hle := hgreatest r hr
    rw [hoff hr]
    omega
  · rw [eq_add_iff (by omega), hoff hq]
    omega

/-- The ends of the batch are those of the span. -/
theorem batch_spans (h : Spans pkts lo n) (hf : (first - lo).toNat < n) (d : UInt16 × Int) :
    ((batch first pkts).headD d).1 = lo ∧
      (batch first pkts).getLastD d ∈ pkts ∧
      distance ((batch first pkts).getLastD d).1 first -
        distance ((batch first pkts).headD d).1 first + 1 = n := by
  obtain ⟨p, hp, hlo⟩ := h.least
  obtain ⟨q, hq, hhi⟩ := h.greatest
  obtain ⟨hhead, hlast, hends⟩ : (batch first pkts).headD d ∈ pkts ∧ _ ∧ _ :=
    batch_ends (List.ne_nil_of_mem hp)
  have hn := h.small
  have hd {p : UInt16 × Int} (hp : p ∈ pkts) :
      distance p.1 first = (p.1 - lo).toNat - (first - lo).toNat :=
    distance_offset hn (h.within p hp) hf
  have hp0 : (p.1 - lo).toNat = 0 := (eq_add_iff (i := 0) (by decide)).mp (by simpa using hlo)
  have hq0 : (q.1 - lo).toNat = n - 1 := (eq_add_iff (by omega)).mp hhi
  have hle := (hends p hp).1
  have hge := (hends q hq).2
  have hw := h.within _ hlast
  rw [hd hhead, hd hp] at hle
  rw [hd hlast, hd hq] at hge
  have hlow : (((batch first pkts).headD d).1 - lo).toNat = 0 := by omega
  refine ⟨?_, hlast, ?_⟩
  · simpa using (eq_add_iff (i := 0) (by decide)).mpr hlow
  · rw [hd hhead, hd hlast]
    omega

/-- A report on the `n` numbers from `lo` on, of which those that were recorded are received.
    There is a delta for each of them, of the type its symbol says. -/
structure Content (pkts : List (UInt16 × Int)) (lo : UInt16) (n : Nat) (f : TransportLayerCc) :
    Prop where
  base : f.baseSequenceNumber = lo
  count : f.packetStatusCount.toNat = n
  chunks : ∀ c ∈ f.packetChunks, c.length = 7
  length : n ≤ f.packetChunks.flatten.length
  symbols : ∀ i < n,
    (Received f.packetChunks.flatten i ↔ ∃ p ∈ pkts, p.1 = lo + UInt16.ofNat i)
  padding : ∀ s ∈ f.packetChunks.flatten.drop n, s = .packetNotReceived
  time : f.referenceTime = reference (arrivals lo n pkts)
  deltas : f.recvDeltas = deltas (f.referenceTime * 64000) (arrivals lo n pkts)
  types : received f.packetChunks.flatten = f.recvDeltas.map Prod.fst
  indices : ∀ p ∈ pkts,
    0 ≤ distance p.1 f.baseSequenceNumber ∧ distance p.1 f.baseSequenceNumber < n

/-- The offsets of the first arrivals increase. -/
theorem arrivals_increase (hn : n ≤ 0x7FFF) :
    (arrivals lo n pkts).Pairwise fun p q => (p.1 - lo).toNat < (q.1 - lo).toNat := by
  have hoff {i : Nat} {p : UInt16 × Int} (hi : i ∈ List.range n)
      (hp : pkts.find? (fun p => p.1 = lo + UInt16.ofNat i) = some p) : (p.1 - lo).toNat = i := by
    have hi := List.mem_range.mp hi
    exact (eq_add_iff (by omega)).mp (by simpa using List.find?_some hp)
  refine List.pairwise_filterMap.mpr
    (List.pairwise_lt_range.imp_of_mem fun hi hj hlt p hp q hq => ?_)
  rw [hoff hi hp, hoff hj hq]
  exact hlt

theorem exists_mem_arrivals (hn : n ≤ 0x7FFF) (hi : i < n) :
    (∃ p ∈ arrivals lo n pkts, (p.1 - lo).toNat = i) ↔ ∃ p ∈ pkts, p.1 = lo + UInt16.ofNat i := by
  constructor
  · rintro ⟨p, hp, hoff⟩
    obtain ⟨j, -, hj⟩ := List.mem_filterMap.mp hp
    exact ⟨p, List.mem_of_find?_eq_some hj, (eq_add_iff (by omega)).mpr hoff⟩
  · rintro ⟨p, hp, hoff⟩
    cases hfind : pkts.find? fun p => p.1 = lo + UInt16.ofNat i with
    | none => exact absurd hoff (by simpa using List.find?_eq_none.mp hfind p hp)
    | some q =>
      have hq : q.1 = lo + UInt16.ofNat i := by simpa using List.find?_some hfind
      exact ⟨q, List.mem_filterMap.mpr ⟨i, List.mem_range.mpr hi, hfind⟩,
        (eq_add_iff (by omega)).mp hq⟩

theorem Content.of_foldl (h : Spans pkts lo n) {f : TransportLayerCc}
    (hbase : f.baseSequenceNumber = lo) (hcount : f.packetStatusCount.toNat = n)
    (htime : f.referenceTime = reference (arrivals lo n pkts))
    (hchunks : f.packetChunks = chunk ((arrivals lo n pkts).foldl (mark lo)
      ⟨f.referenceTime * 64000, List.replicate n .packetNotReceived, []⟩).symbols)
    (hdeltas : f.recvDeltas = ((arrivals lo n pkts).foldl (mark lo)
      ⟨f.referenceTime * 64000, List.replicate n .packetNotReceived, []⟩).recvDeltas) :
    Content pkts lo n f := by
  have hn := h.small
  have hmem {p : UInt16 × Int} (hp : p ∈ arrivals lo n pkts) : p ∈ pkts := by
    obtain ⟨i, -, hi⟩ := List.mem_filterMap.mp hp
    exact List.mem_of_find?_eq_some hi
  have hzero : (lo - lo).toNat < n := by
    obtain ⟨p, hp, hlo⟩ := h.least
    exact hlo ▸ h.within p hp
  have hdist {p : UInt16 × Int} (hp : p ∈ pkts) : distance p.1 lo = (p.1 - lo).toNat := by
    rw [distance_offset hn (h.within p hp) hzero, UInt16.sub_self]
    simp
  -- What the fold makes of no symbol set.
  generalize hk : (⟨f.referenceTime * 64000, List.replicate n .packetNotReceived, []⟩ : Marks) = k
    at hchunks hdeltas
  have hnone : k.symbols = List.replicate n .packetNotReceived := by rw [← hk]
  have hlen : k.symbols.length = n := by rw [hnone, List.length_replicate]
  have hidx : ∀ p ∈ arrivals lo n pkts,
      0 ≤ (distance p.1 lo).toNat ∧ (distance p.1 lo).toNat < k.symbols.length := by
    intro p hp
    have hw := h.within p (hmem hp)
    rw [hdist (hmem hp), hlen]
    omega
  obtain ⟨hseven, m, hflat⟩ :=
    flatten_chunk ((arrivals lo n pkts).foldl (mark lo) k).symbols
  rw [← hchunks] at hseven hflat
  have hsymbols : ((arrivals lo n pkts).foldl (mark lo) k).symbols.length = n := by
    rw [length_foldl_mark, hlen]
  have hnoneof {l : Nat} : received (List.replicate l .packetNotReceived) = [] := by
    simp [received]
  refine ⟨hbase, hcount, hseven, ?_, fun i hi => ?_, fun s hs => ?_, htime, ?_, ?_,
    fun p hp => ?_⟩
  · rw [hflat, List.length_append, hsymbols]
    omega
  · have hstart : ¬ Received k.symbols i := by
      rintro ⟨s, hs, hne⟩
      rw [hnone] at hs
      exact hne (List.eq_of_mem_replicate (List.mem_of_getElem? hs))
    rw [Received, hflat, List.getElem?_append_left (by omega), ← Received,
      received_foldl_mark fun p hp => (hidx p hp).2, or_iff_right hstart,
      ← exists_mem_arrivals hn hi]
    refine exists_congr fun p => and_congr_right fun hp => ?_
    rw [hdist (hmem hp)]
    rfl
  · rw [hflat, List.drop_append_of_le_length (Nat.le_of_eq hsymbols.symm),
      List.drop_of_length_le (Nat.le_of_eq hsymbols), List.nil_append] at hs
    exact List.eq_of_mem_replicate hs
  · rw [hdeltas, recvDeltas_foldl_mark, ← hk]
    rfl
  · rw [hflat, received, List.filter_append, ← received, ← received, hnoneof, List.append_nil,
      filter_foldl_mark (j := 0) ?_ hidx fun x hx => List.eq_of_mem_replicate (hnone ▸ hx), hnone,
      hnoneof, hdeltas, recvDeltas_foldl_mark, ← hk]
    · rfl
    · refine (arrivals_increase hn).imp_of_mem fun hp hq hlt => ?_
      rw [hdist (hmem hp), hdist (hmem hq)]
      exact hlt
  · have hw := h.within p hp
    rw [hbase, hdist hp]
    omega

/-- What a poll that is due reports, when the numbers recorded are those of a span. -/
theorem poll_due (h : Spans t.pkts lo n)
    (hdue : (t.lastFb.any fun last => (now - last) / 1000000 < 100) = false) :
    ∃ f, (t.poll now ssrc).2 = some f ∧ Content t.pkts lo n f := by
  have hne : t.pkts ≠ [] := by
    obtain ⟨p, hp, -⟩ := h.least
    exact List.ne_nil_of_mem hp
  obtain ⟨p, rest, hp⟩ := List.exists_cons_of_ne_nil hne
  have hfirst : (p.1 - lo).toNat < n := h.within p (hp ▸ List.mem_cons_self)
  obtain ⟨hhead, -, hcount⟩ := batch_spans h hfirst p
  have hsmall := h.small
  have hbase : p.1 + wrap (distance ((batch p.1 t.pkts).headD p).1 p.1) = lo := by
    rw [add_wrap_distance, hhead]
  have hpoll : ∃ f, (t.poll now ssrc).2 = some f ∧ f.baseSequenceNumber = lo ∧
      f.packetStatusCount.toNat = n ∧ f.referenceTime = reference (arrivals lo n t.pkts) ∧
      f.packetChunks = chunk ((arrivals lo n t.pkts).foldl (mark lo)
        ⟨f.referenceTime * 64000, List.replicate n .packetNotReceived, []⟩).symbols ∧
      f.recvDeltas = ((arrivals lo n t.pkts).foldl (mark lo)
        ⟨f.referenceTime * 64000, List.replicate n .packetNotReceived, []⟩).recvDeltas := by
    rw [poll]
    split
    · next hnil => exact absurd hnil hne
    · next q rest' hq =>
      obtain rfl : q = p := (List.cons.inj (hq.symm.trans hp)).1
      rw [if_neg (by simpa using hdue)]
      dsimp only
      rw [hcount, hbase, Int.toNat_natCast, if_neg (by omega), batch_eq h hfirst]
      refine ⟨_, rfl, rfl, ?_, ?_, rfl, rfl⟩
      · rw [UInt16.toNat_ofNat']
        omega
      · rw [← batch_eq h hfirst]
        cases hb : batch q.1 t.pkts with
        | nil => exact absurd hb (batch_ne_nil hne)
        | cons a b => rfl
  obtain ⟨f, hf, hlo, hstatus, htime, hchunks, hdeltas⟩ := hpoll
  exact ⟨f, hf, .of_foldl h hlo hstatus htime hchunks hdeltas⟩

theorem due_of_poll {f : TransportLayerCc} (hf : (t.poll now ssrc).2 = some f) :
    (t.lastFb.any fun last => (now - last) / 1000000 < 100) = false := by
  by_contra hdue
  rw [poll] at hf
  split at hf
  · cases hf
  · rw [if_pos (by simpa using hdue)] at hf
    cases hf

theorem content_of_poll {f : TransportLayerCc} (h : Spans t.pkts lo n)
    (hf : (t.poll now ssrc).2 = some f) : Content t.pkts lo n f := by
  obtain ⟨g, hg, hcontent⟩ : ∃ g, (t.poll now ssrc).2 = some g ∧ Content t.pkts lo n g :=
    poll_due h (due_of_poll hf)
  obtain rfl : f = g := Option.some.inj (hf.symm.trans hg)
  exact hcontent

/-- A report is made only on the numbers of a span. -/
theorem spans_of_poll {f : TransportLayerCc} (hf : (t.poll now ssrc).2 = some f) :
    Spans t.pkts f.baseSequenceNumber f.packetStatusCount.toNat := by
  rcases (poll_cases : t.poll now ssrc = (t, none) ∨ _) with
    h | ⟨-, h | ⟨p, g, hp, hg, hcount, hlo, hstatus⟩⟩
  · rw [h] at hf
    cases hf
  · rw [h] at hf
    cases hf
  · obtain rfl : f = g := Option.some.inj (hf.symm.trans hg)
    have hmem : p ∈ t.pkts := List.mem_of_mem_head? hp
    obtain ⟨hleast, hgreatest, hends⟩ : _ ∧ _ ∧ ∀ q ∈ t.pkts,
      distance ((batch p.1 t.pkts).headD p).1 p.1 ≤ distance q.1 p.1 ∧
        distance q.1 p.1 ≤ distance ((batch p.1 t.pkts).getLastD p).1 p.1 :=
      batch_ends (List.ne_nil_of_mem hmem)
    rw [← hstatus] at hcount
    have hoff {q : UInt16 × Int} (hq : q ∈ t.pkts) : ((q.1 - f.baseSequenceNumber).toNat : Int) =
        distance q.1 p.1 - distance f.baseSequenceNumber p.1 := by
      have hw := hends q hq
      refine toNat_sub_distance ?_ ?_
      · rw [hlo]
        omega
      · rw [hlo]
        omega
    refine ⟨hcount, fun q hq => ?_, ⟨_, hleast, hlo.symm⟩, ⟨_, hgreatest, ?_⟩⟩
    · have hq' := hoff hq
      have hw := hends q hq
      rw [hlo] at hq' ⊢
      omega
    · have hq' := hoff hgreatest
      have hw := hends _ hgreatest
      rw [eq_add_iff (by omega)]
      rw [hlo] at hq' ⊢
      omega

/-- What a poll that is due reports. -/
theorem poll_content (hn : n ≤ 0x7FFF) (hne : t.pkts ≠ []) (h : ∀ p ∈ t.pkts, (p.1 - lo).toNat < n)
    (hdue : (t.lastFb.any fun last => (now - last) / 1000000 < 100) = false) :
    ∃ lo m f, m ≤ n ∧ Spans t.pkts lo m ∧ (t.poll now ssrc).2 = some f ∧ Content t.pkts lo m f := by
  obtain ⟨lo, m, hm, hspan⟩ := exists_spans hn hne h
  obtain ⟨f, hf, hcontent⟩ : ∃ f, (t.poll now ssrc).2 = some f ∧ Content t.pkts lo m f :=
    poll_due hspan hdue
  exact ⟨lo, m, f, hm, hspan, hf, hcontent⟩

/-- A tracker with packets across the wrap, out of order and one of them twice. -/
def wrapped : TwccTracker :=
  { pkts := [(0, 70000), (65534, 70500), (1, 71000), (65534, 90000)], epoch := 0 }

theorem poll_content_wrapped : ∃ lo m f, m ≤ 4 ∧ Spans wrapped.pkts lo m ∧
    (wrapped.poll 100000000 7).2 = some f ∧ Content wrapped.pkts lo m f :=
  poll_content (by decide) (by decide)
    (by decide : ∀ p ∈ wrapped.pkts, (p.1 - 65534).toNat < 4) (by decide)

end TwccTracker

end Wandr
