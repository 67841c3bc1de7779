import Mathlib.Data.Prod.Lex
import Wandr.Lib.Loop
import Wandr.Lib.Machine
import Wandr.AudioPlayer.Gapless

/-!
# Tracks still to come

A file may fail to open, and one that opens may have nothing to play. The pump passes a track of the
second kind as it passes any other.

* `upcoming`, `Leads`: the tracks to come, and the next of them that opens and has samples;
* `Onward`: what the pump does to them;
* `exec_pumpRound`: the pump ends, if the order is not repeated or some track of it has samples;
* `Spins.exec_eq_none`: and it does not, where no track has.
-/

namespace Wandr.AudioPlayer

/-! ## Places -/

/-- The places after one of them, once around if the order is repeated. -/
def places (len : Nat) (repeating : Bool) (d : Nat) : List Nat :=
  List.range' (d + 1) (len - (d + 1)) ++ if repeating then List.range (min (d + 1) len) else []

section Places

variable {len d n : Nat} {r : Bool}

theorem places_of_lt (h : d + 1 < len) : places len r d = (d + 1) ::
    (List.range' (d + 2) (len - (d + 2)) ++ if r then List.range (d + 1) else []) := by
  obtain ⟨k, hk⟩ : ∃ k, len - (d + 1) = k + 1 := ⟨len - (d + 1) - 1, by omega⟩
  have hk' : len - (d + 2) = k := by omega
  rw [places, hk, hk', List.range'_succ, Nat.min_eq_left (Nat.le_of_lt h)]
  rfl

theorem places_of_ge (h : len ≤ d + 1) :
    places len r d = if r then List.range len else [] := by
  rw [places, Nat.sub_eq_zero_of_le h, Nat.min_eq_right h]
  rfl

theorem head?_places : (places len r d).head? =
    if d + 1 < len then some (d + 1) else if r && decide (0 < len) then some 0 else none := by
  by_cases h : d + 1 < len
  · rw [places_of_lt h, if_pos h]
    rfl
  · rw [places_of_ge (Nat.le_of_not_lt h), if_neg h]
    cases r with
    | false => rfl
    | true =>
      cases len with
      | zero => rfl
      | succ len =>
        rw [if_pos rfl, List.range_succ_eq_map]
        rfl

/-- If the order is repeated, every place of it comes again. -/
theorem mem_places (hr : r = true) (hn : n < len) : n ∈ places len r d := by
  rw [places, if_pos hr, List.mem_append, List.mem_range'_1, List.mem_range]
  omega

/-- The places after the next one: the other places, and at the end the next one itself. -/
theorem places_turn (h : (places len r d).head? = some n) :
    places len r n = (places len r d).tail ++ if r then [n] else [] := by
  rw [head?_places] at h
  split at h
  · next hlt =>
    cases h
    have hrange : (if r then List.range (d + 2) else []) =
        (if r then List.range (d + 1) else []) ++ if r then [d + 1] else [] := by
      cases r with
      | false => rfl
      | true => exact List.range_succ
    rw [places_of_lt hlt, List.tail_cons, List.append_assoc, ← hrange, places]
    cases r with
    | false => rfl
    | true => rw [if_pos rfl, if_pos rfl, Nat.min_eq_left hlt]
  · next hge =>
    split at h
    · next hr =>
      cases h
      obtain ⟨rfl, hlen⟩ : r = true ∧ 0 < len := by simpa using hr
      obtain ⟨k, rfl⟩ : ∃ k, len = k + 1 := ⟨len - 1, by omega⟩
      rw [places_of_ge (Nat.le_of_not_lt hge), places, if_pos rfl, if_pos rfl, if_pos rfl,
        List.range_eq_range', List.range_eq_range', List.range'_succ,
        Nat.min_eq_left (Nat.le_add_left 1 k)]
      rfl
    · cases h

end Places

/-- The next good place is `g`, after `k` that are not; or there is none, and `k` are left. -/
structure Leads (good : Nat → Bool) (ps : List Nat) (k : Nat) (g : Option Nat) : Prop where
  bad : ∀ n ∈ ps.take k, good n = false
  next : ps[k]? = g
  good : ∀ n, g = some n → good n = true

namespace Leads

variable {good : Nat → Bool} {n k : Nat} {ps : List Nat} {g : Option Nat} {r : Bool}

theorem find (good : Nat → Bool) (ps : List Nat) : ∃ k, Leads good ps k (ps.find? good) := by
  induction ps with
  | nil => exact ⟨0, fun _ h => absurd h List.not_mem_nil, rfl, fun _ h => by cases h⟩
  | cons n ps ih =>
    rw [List.find?_cons]
    cases hn : good n with
    | true =>
      refine ⟨0, fun _ h => absurd h List.not_mem_nil, rfl, fun m hm => ?_⟩
      cases hm
      exact hn
    | false =>
      obtain ⟨k, h⟩ := ih
      exact ⟨k + 1, List.forall_mem_cons.2 ⟨hn, h.bad⟩, h.next, h.good⟩

/-- If there is no good place, all of them are left. -/
theorem bad_of_none (h : Leads good ps k none) : ∀ n ∈ ps, good n = false := by
  have hk := List.getElem?_eq_none_iff.1 h.next
  rw [← List.take_of_length_le hk]
  exact h.bad

theorem head (h : Leads good (n :: ps) (k + 1) g) : good n = false := h.bad n List.mem_cons_self

/-- One bad place less. -/
theorem turn (h : Leads good (n :: ps) (k + 1) g) (hr : g = none → r = false) :
    Leads good (ps ++ if r then [n] else []) k g := by
  refine ⟨fun m hm => ?_, ?_, h.good⟩
  · rw [List.take_append, List.mem_append] at hm
    rcases hm with hm | hm
    · exact h.bad m (List.mem_cons_of_mem _ hm)
    · have hm' := List.mem_of_mem_take hm
      split at hm'
      · rw [List.mem_singleton.1 hm']
        exact h.head
      · exact absurd hm' List.not_mem_nil
  · have hnext : ps[k]? = g := h.next
    cases g with
    | none =>
      rw [hr rfl, if_neg Bool.false_ne_true, List.append_nil]
      exact hnext
    | some m => rw [List.getElem?_append_left (List.getElem?_eq_some_iff.1 hnext).1, hnext]

end Leads

variable {S D : Type} [Dsp S D] {e : Env S D} {s t : State S D} {l : Loaded S D}

/-! ## Tracks still to come -/

/-- The last track of the order that has been opened; it may be blended in. -/
def head (s : State S D) : Nat := (s.xfade.map Xfade.order).getD s.decodeOrder

def upcoming (s : State S D) : List Nat := places s.order.length s.repeating (head s)

/-- The track at a place, if it opens. -/
def opened (e : Env S D) (s : State S D) (n : Nat) : Option (Loaded S D) :=
  s.order[n]?.bind (openTrack e s)

/-- The track at a place opens, and there are samples in it. -/
def yields (e : Env S D) (s : State S D) (n : Nat) : Bool :=
  (opened e s n).any fun l => !l.left.isEmpty

/-- The next track that opens and has samples. -/
def nextGood (e : Env S D) (s : State S D) : Option Nat := (upcoming s).find? (yields e s)

omit [Dsp S D] in
theorem nextDecodeOrder_eq (hx : s.xfade = none) : nextDecodeOrder s = (upcoming s).head? := by
  have hhead : head s = s.decodeOrder := by
    rw [head, hx]
    rfl
  have hlen : (!s.order.isEmpty) = decide (0 < s.order.length) := by
    cases s.order <;> rfl
  rw [upcoming, head?_places, hhead, nextDecodeOrder, hlen]

omit [Dsp S D] in
theorem opened_congr {n : Nat} (h : Same s t) : opened e t n = opened e s n := by
  have hopen : openTrack e t = openTrack e s := by
    funext lib
    rw [openTrack, openTrack, h.library]
  rw [opened, opened, hopen, h.order]

theorem yields_congr (h : Same s t) : yields e t = yields e s := by
  funext n
  rw [yields, yields, opened_congr h]

theorem lt_of_yields {n : Nat} (h : yields e s n = true) : n < s.order.length := by
  rw [← not_le]
  intro hle
  rw [yields, opened, List.getElem?_eq_none hle] at h
  cases h

/-- If no track to come has samples, none does in an order that is repeated. -/
theorem repeating_of_none {k : Nat} {g : Option Nat}
    (hs : s.repeating = true → ∃ n, yields e s n = true)
    (h : Leads (yields e s) (upcoming s) k g) (hg : g = none) : s.repeating = false := by
  rw [Bool.eq_false_iff]
  intro hr
  obtain ⟨n, hn⟩ := hs hr
  rw [hg] at h
  have hbad := h.bad_of_none n (mem_places hr (lt_of_yields hn))
  exact absurd (hbad.symm.trans hn) Bool.false_ne_true

/-! ## A round of the pump -/

omit [Dsp S D] in
theorem maybeStartXfade_eq : maybeStartXfade e s = s ∨
    ∃ n l segs, nextDecodeOrder s = some n ∧ opened e s n = some l ∧ s.xfadeFrames ≠ 0 ∧
      maybeStartXfade e s = { s with
        segments := segs
        xfade := some {
          next := { l with segStarted := true }
          order := n
          pos := 0
          dur := s.xfadeFrames } } := by
  unfold maybeStartXfade
  split
  · exact .inl rfl
  next hf =>
  split
  · split
    · exact .inl rfl
    split
    · exact .inl rfl
    next n hn =>
    split
    · exact .inl rfl
    next l hl =>
    split
    · exact .inl rfl
    · exact .inr ⟨n, l, _, hn, hl, fun h => hf (.inl h), rfl⟩
  · exact .inl rfl

omit [Dsp S D] in
theorem softAdvance_eq {n : Nat} (h : softAdvance e s n = some t) :
    ∃ l, opened e s n = some l ∧ t = { s with loaded := some l, decodeOrder := n } := by
  unfold softAdvance at h
  unfold opened
  split at h
  · cases h
  next lib hlib =>
  rw [hlib, Option.bind_some]
  split at h
  · cases h
  next l hl =>
  split at h
  · cases h
  · cases h
    exact ⟨l, hl, rfl⟩

omit [Dsp S D] in
theorem head_eq (hx : s.xfade = none) : head s = s.decodeOrder := by
  rw [head, hx]
  rfl

/-! ## What the pump leaves alone -/

/-- The tracks that are opened are the same. -/
structure Still (s t : State S D) : Prop where
  same : Same s t
  playing : t.playing = s.playing
  loaded : t.loaded.isSome = s.loaded.isSome
  decodeOrder : t.decodeOrder = s.decodeOrder
  xfade : t.xfade = s.xfade

omit [Dsp S D] in
theorem Still.trans {u : State S D} (h : Still s t) (h' : Still t u) : Still s u :=
  ⟨h.same.trans h'.same, h'.playing.trans h.playing, h'.loaded.trans h.loaded,
    h'.decodeOrder.trans h.decodeOrder, h'.xfade.trans h.xfade⟩

omit [Dsp S D] in
theorem still_write {samples : List S} : Still s (write s samples).2 := by
  unfold write
  split <;> exact ⟨rfl, rfl, rfl, rfl, rfl⟩

omit [Dsp S D] in
theorem still_ensureSeg : Still s (ensureSeg s) := by
  unfold ensureSeg
  split
  · next hl _ =>
    split
    · exact ⟨rfl, rfl, rfl, rfl, rfl⟩
    · exact ⟨rfl, rfl, by rw [hl]; rfl, rfl, rfl⟩
  · exact ⟨rfl, rfl, rfl, rfl, rfl⟩

omit [Dsp S D] in
theorem still_written {samples : List S} {f : Loaded S D → Loaded S D} :
    Still s { (write (ensureSeg s) samples).2 with
      loaded := (write (ensureSeg s) samples).2.loaded.map f } := by
  have h : Still s (write (ensureSeg s) samples).2 := still_ensureSeg.trans still_write
  exact ⟨h.same, h.playing, Option.isSome_map.trans h.loaded, h.decodeOrder, h.xfade⟩

/-- The player goes on to tracks that were still to come, if to any. -/
structure Onward (s t : State S D) : Prop where
  same : Same s t
  playing : t.playing = s.playing
  loaded : s.loaded.isSome → t.loaded.isSome
  upcoming : upcoming t ⊆ upcoming s

namespace Onward

omit [Dsp S D]

theorem refl (s : State S D) : Onward s s := ⟨rfl, rfl, id, List.Subset.refl _⟩

theorem trans {u : State S D} (h : Onward s t) (h' : Onward t u) : Onward s u :=
  ⟨h.same.trans h'.same, h'.playing.trans h.playing, fun hl => h'.loaded (h.loaded hl),
    fun _ hn => h.upcoming (h'.upcoming hn)⟩

end Onward

omit [Dsp S D] in
theorem upcoming_congr (h : Same s t) (hd : head t = head s) : upcoming t = upcoming s := by
  rw [upcoming, upcoming, hd, h.order, h.repeating]

omit [Dsp S D] in
/-- After one more track is opened, it is the last to come, or not to come at all. -/
theorem upcoming_turn {n : Nat} (hx : s.xfade = none) (hn : nextDecodeOrder s = some n)
    (h : Same s t) (hd : head t = n) :
    upcoming t = (upcoming s).tail ++ if s.repeating then [n] else [] := by
  rw [nextDecodeOrder_eq hx] at hn
  rw [upcoming, hd, h.order, h.repeating]
  exact places_turn hn

omit [Dsp S D] in
theorem upcoming_turn_subset {n : Nat} (hx : s.xfade = none) (hn : nextDecodeOrder s = some n)
    (h : Same s t) (hd : head t = n) : upcoming t ⊆ upcoming s := by
  rw [upcoming_turn hx hn h hd]
  rw [nextDecodeOrder_eq hx] at hn
  refine List.append_subset.2 ⟨fun _ => List.mem_of_mem_tail, ?_⟩
  split
  · exact List.cons_subset.2 ⟨List.mem_of_mem_head? hn, List.nil_subset _⟩
  · exact List.nil_subset _

omit [Dsp S D] in
theorem onward_of_head (h : Same s t) (hp : t.playing = s.playing)
    (hl : s.loaded.isSome → t.loaded.isSome) (hd : head t = head s) : Onward s t :=
  ⟨h, hp, hl, fun _ hn => upcoming_congr h hd ▸ hn⟩

omit [Dsp S D] in
theorem Still.onward (h : Still s t) : Onward s t :=
  onward_of_head h.same h.playing (fun hl => h.loaded.trans hl) (by
    rw [head, head, h.xfade, h.decodeOrder])

omit [Dsp S D] in
/-- Another track is decoded, or what is decoded is. -/
theorem onward_loaded : Onward s { s with loaded := some l } :=
  ⟨rfl, rfl, fun _ => rfl, List.Subset.refl _⟩

omit [Dsp S D] in
theorem onward_maybeStartXfade (hx : s.xfade = none) : Onward s (maybeStartXfade e s) := by
  rcases maybeStartXfade_eq (e := e) (s := s) with he | ⟨n, l, segs, hn, -, -, he⟩
  · rw [he]
    exact .refl _
  · rw [he]
    exact ⟨rfl, rfl, id, upcoming_turn_subset hx hn rfl rfl⟩

omit [Dsp S D] in
theorem onward_xfadeFinish : Onward s (xfadeFinish s) := by
  unfold xfadeFinish
  split
  · next x hx =>
    refine onward_of_head rfl rfl (fun _ => rfl) ?_
    rw [head, head, hx]
    rfl
  · exact .refl _

omit [Dsp S D] in
theorem onward_softAdvance {n : Nat} (hx : s.xfade = none) (hn : nextDecodeOrder s = some n)
    (h : softAdvance e s n = some t) : Onward s t := by
  obtain ⟨l, -, rfl⟩ := softAdvance_eq h
  refine ⟨rfl, rfl, fun _ => rfl, upcoming_turn_subset hx hn rfl ?_⟩
  rw [head, hx]
  rfl

omit [Dsp S D] in
/-- The tracks of a blend are decoded and written. -/
theorem onward_blend {x x' : Xfade S D} (hx : s.xfade = some x) (h : x'.order = x.order) :
    Onward s { s with loaded := some l, xfade := some x' } := by
  refine onward_of_head rfl rfl (fun _ => rfl) ?_
  rw [head, head, hx]
  exact h

theorem onward_pumpXfade {n : Nat} : Onward s (pumpXfade n s) := by
  induction n generalizing s with
  | zero => exact .refl _
  | succ n ih =>
    rw [pumpXfade]
    split
    · next l x hl hx =>
      dsimp only
      have hr : Onward s { s with
          loaded := some l, xfade := some { x with next := refill x.next } } := onward_blend hx rfl
      have hx' : ({ s with
          loaded := some l, xfade := some { x with next := refill x.next } } : State S D).xfade =
          some { x with next := refill x.next } := rfl
      generalize ({ s with
          loaded := some l, xfade := some { x with next := refill x.next } } :
          State S D) = s' at hr hx'
      split
      · exact hr.trans onward_xfadeFinish
      split
      · split
        · exact hr.trans onward_xfadeFinish
        · exact hr
      generalize (mixSamples D _ _ _ _ _ : List S) = mix
      have hw : Still s' (write s' mix).2 := still_write
      generalize write s' mix = w at hw
      obtain ⟨accepted, s''⟩ := w
      dsimp only at hw ⊢
      split
      · exact hr.trans hw.onward
      · have hb : Onward s'' { s'' with
            loaded := some (l.advance (accepted * l.ch))
            xfade := some { x with
              next := (refill x.next).advance (accepted * l.ch), pos := x.pos + accepted } } :=
          onward_blend (hw.xfade.trans hx') rfl
        exact ((hr.trans hw.onward).trans hb).trans ih
    · exact .refl _

/-! ## Rounds -/

theorem pumpRound_unwritten (hl : s.loaded = some l) (hu : l.unwritten ≠ []) :
    pumpRound e s = (decide ((write (ensureSeg s) l.unwritten).1 ≠ 0),
      { (write (ensureSeg s) l.unwritten).2 with
        loaded := (write (ensureSeg s) l.unwritten).2.loaded.map fun m =>
          m.advance ((write (ensureSeg s) l.unwritten).1 * m.ch) }) := by
  unfold pumpRound
  rw [hl]
  dsimp only
  rw [if_pos (Nat.lt_of_not_le fun h => hu (Loaded.unwritten_eq_nil.2 h))]

theorem pumpRound_decode (hl : s.loaded = some l) (hu : l.unwritten = []) (he : l.eof = false) :
    pumpRound e s =
      let t := maybeStartXfade e { s with loaded := some l.decodeChunk }
      if t.xfade.isSome then (false, pumpXfade (t.takes.length + 1) t) else (true, t) := by
  have hmore : decodeMore s = { s with loaded := some l.decodeChunk } := by
    rw [decodeMore, hl]
    rfl
  unfold pumpRound
  rw [hmore, hl]
  dsimp only
  rw [if_neg (Nat.not_lt.2 (Loaded.unwritten_eq_nil.1 hu)), he, Bool.not_false, if_pos rfl]

/-- When all of the track has been written, the next one is opened, or the pump stops. -/
theorem pumpRound_drained (hl : s.loaded = some l) (hu : l.unwritten = []) (he : l.eof = true) :
    pumpRound e s = (false, s) ∨ pumpRound e s = (false, { s with gaplessBlocked := true }) ∨
      ∃ n t, nextDecodeOrder s = some n ∧ softAdvance e s n = some t ∧
        pumpRound e s = (true, t) := by
  unfold pumpRound
  rw [hl]
  dsimp only
  rw [if_neg (Nat.not_lt.2 (Loaded.unwritten_eq_nil.1 hu)), he, Bool.not_true,
    if_neg Bool.false_ne_true]
  split
  · exact .inl rfl
  split
  · next n hn =>
    split
    · next t ht => exact .inr (.inr ⟨n, t, hn, ht, rfl⟩)
    · exact .inr (.inl rfl)
  · exact .inl rfl

theorem pumpRound_softAdvance {n : Nat} (hl : s.loaded = some l) (hu : l.unwritten = [])
    (he : l.eof = true) (hb : s.gaplessBlocked = false) (hn : nextDecodeOrder s = some n)
    (ht : softAdvance e s n = some t) : pumpRound e s = (true, t) := by
  unfold pumpRound
  rw [hl]
  dsimp only
  rw [if_neg (Nat.not_lt.2 (Loaded.unwritten_eq_nil.1 hu)), he, Bool.not_true,
    if_neg Bool.false_ne_true, if_neg (Bool.eq_false_iff.1 hb), hn]
  dsimp only
  rw [ht]

/-- A round after which the pump goes on: the device takes something, or a packet is decoded, or the
    next track is opened. -/
theorem pumpRound_goes (hl : s.loaded = some l) (h : pumpRound e s = (true, t)) :
    t.takes.length < s.takes.length ∧ Still s t ∨
      (l.unwritten = [] ∧ l.eof = false ∧ t = { s with loaded := some l.decodeChunk }) ∨
      (l.unwritten = [] ∧ l.eof = true ∧ ∃ n l', nextDecodeOrder s = some n ∧
        opened e s n = some l' ∧ t = { s with loaded := some l', decodeOrder := n }) := by
  by_cases hu : l.unwritten = []
  · cases he : l.eof with
    | false =>
      rw [pumpRound_decode hl hu he] at h
      dsimp only at h
      split at h
      · cases h
      next hnone =>
      cases h
      rcases maybeStartXfade_eq (e := e) (s := { s with loaded := some l.decodeChunk }) with
        heq | ⟨n, l', segs, -, -, -, heq⟩
      · exact .inr (.inl ⟨hu, rfl, heq⟩)
      · rw [heq] at hnone
        exact absurd rfl hnone
    | true =>
      rcases pumpRound_drained hl hu he with hr | hr | ⟨n, t', hn, ht', hr⟩
      · cases h.symm.trans hr
      · cases h.symm.trans hr
      · cases h.symm.trans hr
        obtain ⟨l', hl', rfl⟩ := softAdvance_eq ht'
        exact .inr (.inr ⟨hu, rfl, n, l', hn, hl', rfl⟩)
  · rw [pumpRound_unwritten hl hu] at h
    obtain ⟨hgo, rfl⟩ := Prod.mk.inj h
    have hlt := takes_write (of_decide_eq_true hgo)
    rw [Solo.takes_ensureSeg] at hlt
    exact .inl ⟨hlt, still_written⟩

theorem onward_pumpRound {b : Bool} (hx : s.xfade = none) (h : pumpRound e s = (b, t)) :
    Onward s t ∧ (b = true → t.xfade = none) := by
  cases hl : s.loaded with
  | none =>
    unfold pumpRound at h
    rw [hl] at h
    cases h
    exact ⟨.refl s, fun hb => by cases hb⟩
  | some l =>
    by_cases hu : l.unwritten = []
    · cases he : l.eof with
      | false =>
        rw [pumpRound_decode hl hu he] at h
        have hm : Onward s (maybeStartXfade e { s with loaded := some l.decodeChunk }) :=
          onward_loaded.trans (onward_maybeStartXfade hx)
        dsimp only at h
        generalize maybeStartXfade e { s with loaded := some l.decodeChunk } = s' at h hm
        split at h
        · cases h
          exact ⟨hm.trans onward_pumpXfade, fun hb => by cases hb⟩
        · next hnone =>
          cases h
          exact ⟨hm, fun _ => Option.not_isSome_iff_eq_none.1 hnone⟩
      | true =>
        rcases pumpRound_drained hl hu he with hr | hr | ⟨n, t', hn, ht', hr⟩
        · cases h.symm.trans hr
          exact ⟨.refl s, fun hb => by cases hb⟩
        · cases h.symm.trans hr
          exact ⟨onward_of_head rfl rfl id rfl, fun hb => by cases hb⟩
        · cases h.symm.trans hr
          refine ⟨onward_softAdvance hx hn ht', fun _ => ?_⟩
          obtain ⟨l', -, rfl⟩ := softAdvance_eq ht'
          exact hx
    · rw [pumpRound_unwritten hl hu] at h
      obtain ⟨-, rfl⟩ := Prod.mk.inj h
      exact ⟨still_written.onward, fun _ => still_written.xfade.trans hx⟩

theorem onward_pumpLoop {n : Nat} (hx : s.xfade = none) : Onward s (pumpLoop e n s) := by
  induction n generalizing s with
  | zero => exact .refl s
  | succ n ih =>
    rw [pumpLoop]
    split
    · next s' hs' =>
      obtain ⟨ho, hx'⟩ := onward_pumpRound hx hs'
      exact ho.trans (ih (hx' rfl))
    · next s' hs' => exact (onward_pumpRound hx hs').1

theorem onward_pump : Onward s (pump e s) := by
  unfold pump
  split
  · exact .refl s
  · have hm : Onward s (if s.xfade.isNone then maybeStartXfade e s else s) := by
      split
      · next hx => exact onward_maybeStartXfade (Option.isNone_iff_eq_none.1 hx)
      · exact .refl s
    dsimp only
    generalize (if s.xfade.isNone then maybeStartXfade e s else s) = s' at hm
    split
    · exact hm.trans onward_pumpXfade
    · next hnone => exact hm.trans (onward_pumpLoop (Option.not_isSome_iff_eq_none.1 hnone))

/-! ## The pump ends -/

/-- The next track is the good one, or one that is not, and then it is one less to the good one. -/
theorem leads_next {n k : Nat} {g : Option Nat} (hx : s.xfade = none)
    (hg : g = none → s.repeating = false) (h : Leads (yields e s) (upcoming s) k g)
    (hn : nextDecodeOrder s = some n) (hl : opened e s n = some l) (hs : Same s t)
    (hd : head t = n) :
    k = 0 ∧ g = some n ∧ l.left ≠ [] ∨
      ∃ k', k = k' + 1 ∧ l.left = [] ∧ Leads (yields e t) (upcoming t) k' g := by
  have hy : yields e s n = !l.left.isEmpty := by
    rw [yields, hl]
    rfl
  rw [upcoming_turn hx hn hs hd, yields_congr hs]
  rw [nextDecodeOrder_eq hx] at hn
  obtain ⟨ps, hps⟩ := List.head?_eq_some_iff.1 hn
  rw [hps] at h ⊢
  cases k with
  | zero =>
    refine .inl ⟨rfl, h.next.symm, fun hnil => ?_⟩
    have hgood := h.good n h.next.symm
    rw [hy, hnil] at hgood
    cases hgood
  | succ k =>
    have hbad := h.head
    rw [hy, Bool.not_eq_false', List.isEmpty_iff] at hbad
    exact .inr ⟨k, rfl, hbad, h.turn hg⟩

/-- How near the next good track is; the one that is decoded may be one. -/
inductive Nears (e : Env S D) (s : State S D) (l : Loaded S D) : Nat → Prop
  | good : l.left ≠ [] → Nears e s l 0
  | bad {k : Nat} {g : Option Nat} : l.left = [] → Leads (yields e s) (upcoming s) k g →
      Nears e s l (k + 1)

theorem Nears.exists (e : Env S D) (s : State S D) (l : Loaded S D) : ∃ k, Nears e s l k := by
  by_cases hl : l.left = []
  · obtain ⟨k, h⟩ := Leads.find (yields e s) (upcoming s)
    exact ⟨k + 1, .bad hl h⟩
  · exact ⟨0, .good hl⟩

/-- What is left to the pump: writes, then tracks before a good one, then packets. -/
def Work (e : Env S D) (s : State S D) (a : ℕ ×ₗ ℕ ×ₗ ℕ) (u : State S D) : Prop :=
  Same s u ∧ u.xfade = none ∧
    ∀ l, u.loaded = some l → ∃ k, Nears e u l k ∧ a = toLex (u.takes.length, toLex (k, l.rest))

theorem Work.exists {u : State S D} (e : Env S D) (h : Same s u) (hx : u.xfade = none) :
    ∃ a, Work e s a u ∧ (ofLex a).1 = u.takes.length := by
  cases hl : u.loaded with
  | none =>
    refine ⟨toLex (u.takes.length, toLex (0, 0)), ⟨h, hx, fun l hl' => ?_⟩, rfl⟩
    cases hl.symm.trans hl'
  | some l =>
    obtain ⟨k, hk⟩ := Nears.exists e u l
    refine ⟨toLex (u.takes.length, toLex (k, l.rest)), ⟨h, hx, fun l' hl' => ⟨k, ?_⟩⟩, rfl⟩
    cases hl.symm.trans hl'
    exact ⟨hk, rfl⟩

/-- A round in which the device takes nothing brings the next good track nearer, or decodes some of
    a track. -/
theorem Work.pumpRound {a : ℕ ×ₗ ℕ ×ₗ ℕ} {u v : State S D} (h : Work e s a u)
    (hs : s.repeating = true → ∃ n, yields e s n = true) (hb : pumpRound e u = (true, v)) :
    ∃ b, b < a ∧ Work e s b v := by
  obtain ⟨hsu, hx, hlu⟩ := h
  cases hl : u.loaded with
  | none =>
    unfold AudioPlayer.pumpRound at hb
    rw [hl] at hb
    cases hb
  | some l =>
    obtain ⟨k, hk, rfl⟩ := hlu l hl
    rcases pumpRound_goes hl hb with ⟨hlt, hstill⟩ | ⟨hu, he, rfl⟩ | ⟨hu, he, n, l', hn, hl', rfl⟩
    · obtain ⟨b, hb, hb1⟩ := Work.exists e (hsu.trans hstill.same) (hstill.xfade.trans hx)
      refine ⟨b, Prod.Lex.lt_iff.2 (.inl ?_), hb⟩
      rw [hb1]
      exact hlt
    · refine ⟨toLex (u.takes.length, toLex (k, l.decodeChunk.rest)), ?_, hsu, hx, fun m hm => ?_⟩
      · refine Prod.Lex.toLex_lt_toLex.2 (.inr ⟨rfl, ?_⟩)
        exact Prod.Lex.toLex_lt_toLex.2 (.inr ⟨rfl, Loaded.rest_decodeChunk he⟩)
      · cases hm
        refine ⟨k, ?_, rfl⟩
        cases hk with
        | good hne => exact .good fun h => hne ((Loaded.left_decodeChunk hu he).symm.trans h)
        | bad hnil hk => exact .bad ((Loaded.left_decodeChunk hu he).trans hnil) hk
    · have hnil : l.left = [] := Loaded.left_eq_nil hu he
      cases hk with
      | good hne => exact absurd hnil hne
      | @bad k g _ hk =>
        have hg : g = none → u.repeating = false := repeating_of_none (fun hr => by
          rw [yields_congr hsu]
          exact hs (hsu.repeating.symm.trans hr)) hk
        have hsame : Same u { u with loaded := some l', decodeOrder := n } := rfl
        have hnext := leads_next hx hg hk hn hl' hsame (head_eq hx)
        rcases hnext with ⟨rfl, -, hne⟩ | ⟨k', rfl, hnil', hk'⟩
        · refine ⟨toLex (u.takes.length, toLex (0, l'.rest)), ?_, hsu, hx, fun m hm => ?_⟩
          · refine Prod.Lex.toLex_lt_toLex.2 (.inr ⟨rfl, ?_⟩)
            exact Prod.Lex.toLex_lt_toLex.2 (.inl Nat.zero_lt_one)
          · cases hm
            exact ⟨0, .good hne, rfl⟩
        · refine ⟨toLex (u.takes.length, toLex (k' + 1, l'.rest)), ?_, hsu, hx, fun m hm => ?_⟩
          · refine Prod.Lex.toLex_lt_toLex.2 (.inr ⟨rfl, ?_⟩)
            exact Prod.Lex.toLex_lt_toLex.2 (.inl (Nat.lt_succ_self _))
          · cases hm
            exact ⟨k' + 1, .bad hnil' hk', rfl⟩

/-- So the pump ends, if the order is not repeated or some track of it has samples. -/
theorem exec_pumpRound (hx : s.xfade = none)
    (hs : s.repeating = true → ∃ n, yields e s n = true) :
    ∃ n t, Loop.exec (pumpRound e ·) n s = some t := by
  obtain ⟨a, ha, -⟩ := Work.exists e (rfl : Same s s) hx
  exact Loop.exec_of_rank wellFounded_lt (fun h hb => Work.pumpRound h hs hb) ha

/-- The order is repeated, and all of it opens in the layout of the device and has no samples. -/
structure Spins (e : Env S D) (s : State S D) : Prop where
  loaded : ∃ l, s.loaded = some l ∧ l.left = []
  xfade : s.xfade = none
  xfadeFrames : s.xfadeFrames = 0
  unblocked : s.gaplessBlocked = false
  repeating : s.repeating = true
  order : s.order ≠ []
  empty : ∀ n < s.order.length, ∃ l, opened e s n = some l ∧ l.left = [] ∧
    outLayoutStereo l.channels = s.pbStereo

theorem Spins.pumpRound (h : Spins e s) : ∃ t, pumpRound e s = (true, t) ∧ Spins e t := by
  obtain ⟨l, hl, hnil⟩ := h.loaded
  have hu := Loaded.unwritten_of_left hnil
  cases he : l.eof with
  | false =>
    refine ⟨{ s with loaded := some l.decodeChunk }, ?_, ⟨_, rfl, ?_⟩, h.xfade, h.xfadeFrames,
      h.unblocked, h.repeating, h.order, h.empty⟩
    · have hoff : maybeStartXfade e { s with loaded := some l.decodeChunk } =
          { s with loaded := some l.decodeChunk } := if_pos (.inl h.xfadeFrames)
      rw [pumpRound_decode hl hu he, hoff]
      dsimp only
      rw [h.xfade]
      rfl
    · exact (Loaded.left_decodeChunk hu he).trans hnil
  | true =>
    have hpos := List.length_pos_iff.2 h.order
    obtain ⟨n, hn, hlt⟩ : ∃ n, nextDecodeOrder s = some n ∧ n < s.order.length := by
      unfold nextDecodeOrder
      split
      · next hlt => exact ⟨_, rfl, hlt⟩
      · have hne : s.order.isEmpty = false := List.isEmpty_eq_false_iff.2 h.order
        rw [h.repeating, hne]
        exact ⟨0, rfl, hpos⟩
    obtain ⟨l', hl', hnil', hlay⟩ := h.empty n hlt
    have hsoft : softAdvance e s n = some { s with loaded := some l', decodeOrder := n } := by
      obtain ⟨lib, hlib, hopen⟩ := Option.bind_eq_some_iff.1 hl'
      unfold softAdvance
      rw [hlib]
      dsimp only
      rw [hopen]
      dsimp only
      rw [if_neg (not_not_intro hlay)]
    refine ⟨{ s with loaded := some l', decodeOrder := n }, ?_, ⟨l', rfl, hnil'⟩, h.xfade,
      h.xfadeFrames, h.unblocked, h.repeating, h.order, h.empty⟩
    exact pumpRound_softAdvance hl hu he h.unblocked hn hsoft

/-- Then the pump does not end. -/
theorem Spins.exec_eq_none {n : Nat} (h : Spins e s) :
    Loop.exec (AudioPlayer.pumpRound e ·) n s = none := by
  induction n generalizing s with
  | zero => rfl
  | succ n ih =>
    obtain ⟨t, ht, hspins⟩ := h.pumpRound
    rw [Loop.exec, ht]
    exact ih hspins

end Wandr.AudioPlayer
