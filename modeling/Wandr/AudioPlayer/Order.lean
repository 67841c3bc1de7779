import Wandr.Lib.Machine
import Wandr.AudioPlayer.Frame

/-!
# The order of the queue

Places in the order are kept of the track that is decoded, of the one that is blended in, and of
each segment. A shuffle makes the order anew and moves all of these but the place of the track that
is blended in; and a tap on a row makes it anew around what is heard, not around the row.

* `Follows`: each place is that of its track;
* `Follows.applyOrder_iff`: a new order keeps that so if and only if the track that is blended in
  has its old place in it;
* `order_follows`: so it is in a run.
-/

namespace Wandr.AudioPlayer

open Machine

variable {S D : Type} {e : Env S D} {s t : State S D}

/-- The order is that of the queue, and each place in it is that of its track. -/
structure Follows (s : State S D) : Prop where
  perm : s.order.Perm s.queue
  head : ∀ lib, s.loaded.map Loaded.lib = some lib → s.order[s.decodeOrder]? = some lib
  blend : ∀ no lib, (s.xfade.map fun x => (x.order, x.next.lib)) = some (no, lib) →
    s.order[no]? = some lib
  segs : ∀ sg ∈ s.segments, s.order[sg.orderPos]? = some sg.libIndex

/-- The places and their tracks are the same. -/
structure Keeps (s t : State S D) : Prop where
  queue : t.queue = s.queue
  order : t.order = s.order
  decodeOrder : t.decodeOrder = s.decodeOrder
  loaded : t.loaded.map Loaded.lib = s.loaded.map Loaded.lib
  xfade : (t.xfade.map fun x => (x.order, x.next.lib)) = s.xfade.map fun x => (x.order, x.next.lib)
  segments : t.segments = s.segments

theorem Follows.of_keeps (h : Follows s) (hk : Keeps s t) : Follows t where
  perm := by
    rw [hk.order, hk.queue]
    exact h.perm
  head lib hl := by
    rw [hk.order, hk.decodeOrder]
    exact h.head lib (hk.loaded ▸ hl)
  blend no lib hx := by
    rw [hk.order]
    exact h.blend no lib (hk.xfade ▸ hx)
  segs sg hsg := by
    rw [hk.order]
    exact h.segs sg (hk.segments ▸ hsg)

/-! ## Tracks -/

section
variable [Dsp S D] {l : Loaded S D}

theorem lib_decodePackets (ps : List (Packet S)) : (l.decodePackets ps).lib = l.lib := by
  induction ps with
  | nil => rfl
  | cons p ps ih =>
    cases p with
    | foreign => exact ih
    | broken => exact ih
    | fatal => rfl
    | audio samples => rfl

theorem lib_decodeChunk : l.decodeChunk.lib = l.lib := lib_decodePackets _

theorem lib_refill : (refill l).lib = l.lib := by
  unfold refill
  split
  · exact lib_decodeChunk
  · rfl

omit [Dsp S D] in
theorem lib_advance {n : Nat} : (l.advance n).lib = l.lib := by
  unfold Loaded.advance
  split <;> rfl

end

theorem lib_openTrack {lib : Nat} {l : Loaded S D} (h : openTrack e s lib = some l) :
    l.lib = lib := by
  unfold openTrack at h
  split at h
  · obtain ⟨src, -, rfl⟩ := Option.map_eq_some_iff.1 h
    rfl
  · cases h

theorem map_lib_openTrack {lib lib' : Nat} (h : (openTrack e s lib).map Loaded.lib = some lib') :
    lib = lib' := by
  obtain ⟨l, hl, rfl⟩ := Option.map_eq_some_iff.1 h
  exact (lib_openTrack hl).symm

/-! ## Writing -/

theorem keeps_write {samples : List S} : Keeps s (write s samples).2 := by
  unfold write
  split <;> exact ⟨rfl, rfl, rfl, rfl, rfl, rfl⟩

theorem Follows.ensureSeg (h : Follows s) : Follows (ensureSeg s) := by
  unfold AudioPlayer.ensureSeg
  split
  · next l pb hl hpb =>
    split
    · exact h
    · have hlib := h.head l.lib (by rw [hl]; rfl)
      refine ⟨h.perm, fun lib he => ?_, h.blend, fun sg hsg => ?_⟩
      · exact h.head lib (by rw [hl]; exact he)
      · rcases List.mem_append.1 hsg with hsg | hsg
        · exact h.segs sg hsg
        · rw [List.mem_singleton.1 hsg]
          dsimp only
          rw [hlib]
          rfl
  · exact h

theorem Follows.xfadeFinish (h : Follows s) : Follows (xfadeFinish s) := by
  unfold AudioPlayer.xfadeFinish
  split
  · next x hx =>
    refine ⟨h.perm, fun lib he => ?_, fun _ _ he => (by cases he), h.segs⟩
    cases he
    exact h.blend x.order x.next.lib (by rw [hx]; rfl)
  · exact h

theorem Follows.maybeStartXfade (h : Follows s) : Follows (maybeStartXfade e s) := by
  unfold AudioPlayer.maybeStartXfade
  split
  · exact h
  split
  · split
    · exact h
    split
    · exact h
    · next no _ =>
      cases hlib : s.order[no]? with
      | none => exact h
      | some lib =>
        dsimp only [Option.bind_some, Option.getD_some]
        split
        · exact h
        · next next hnext =>
          split
          · exact h
          · refine ⟨h.perm, h.head, fun no' lib' he => ?_, fun sg hsg => ?_⟩
            · cases he
              rw [lib_openTrack hnext]
              exact hlib
            · rcases List.mem_append.1 hsg with hsg | hsg
              · exact h.segs sg hsg
              · rw [List.mem_singleton.1 hsg]
                exact hlib
  · exact h

theorem Follows.softAdvance {n : Nat} (h : Follows s) (ht : softAdvance e s n = some t) :
    Follows t := by
  unfold AudioPlayer.softAdvance at ht
  split at ht
  · cases ht
  · next lib hlib =>
    split at ht
    · cases ht
    · next l hl =>
      split at ht
      · cases ht
      · cases ht
        refine ⟨h.perm, fun lib' he => ?_, h.blend, h.segs⟩
        cases he
        rw [lib_openTrack hl]
        exact hlib

theorem Follows.play (h : Follows s) : Follows (play e s) := by
  unfold AudioPlayer.play
  split
  · exact h
  · next l hl =>
    dsimp only
    split
    · exact h.of_keeps ⟨rfl, rfl, rfl, rfl, rfl, rfl⟩
    · split
      · refine ⟨h.perm, fun lib he => ?_, h.blend, fun _ hsg => absurd hsg List.not_mem_nil⟩
        exact h.head lib (by rw [hl]; exact he)
      · exact h.of_keeps ⟨rfl, rfl, rfl, rfl, rfl, rfl⟩

theorem keeps_flush : Keeps s (flush s) := by
  unfold flush
  split <;> exact ⟨rfl, rfl, rfl, rfl, rfl, rfl⟩

theorem keeps_closeOrFlush : Keeps s (closeOrFlush s) := by
  unfold closeOrFlush
  split
  · split
    · exact ⟨rfl, rfl, rfl, rfl, rfl, rfl⟩
    · exact keeps_flush
  · exact ⟨rfl, rfl, rfl, rfl, rfl, rfl⟩

/-- Nothing is left but a track that is opened from the order. -/
theorem follows_opened {lib : Nat} (hp : s.order.Perm s.queue) (hs : s.segments = [])
    (hx : s.xfade = none) (hl : ∀ lib', s.loaded.map Loaded.lib = some lib' → lib = lib')
    (ho : s.order[s.decodeOrder]? = some lib) : Follows s where
  perm := hp
  head lib' he := by rw [ho, hl lib' he]
  blend no lib' he := by
    rw [hx] at he
    cases he
  segs sg hsg := by
    rw [hs] at hsg
    exact absurd hsg List.not_mem_nil

theorem Follows.resync (h : Follows s) : Follows (resync e s) := by
  unfold AudioPlayer.resync
  split
  · next front hfront =>
    split
    · split
      · next l hl =>
        refine ⟨h.perm, fun lib he => ?_, h.blend, h.segs⟩
        cases he
        rw [lib_openTrack hl]
        exact h.segs front (List.mem_of_mem_head? hfront)
      · exact h
    · exact h
  · exact h

variable [Dsp S D]

theorem keeps_decodeMore : Keeps s (decodeMore s) := by
  refine ⟨rfl, rfl, rfl, ?_, rfl, rfl⟩
  unfold decodeMore
  dsimp only
  rw [Option.map_map]
  exact Option.map_congr fun l _ => lib_decodeChunk

theorem Follows.pumpXfade {n : Nat} (h : Follows s) : Follows (pumpXfade n s) := by
  induction n generalizing s with
  | zero => exact h
  | succ n ih =>
    rw [AudioPlayer.pumpXfade]
    split
    · next l x hl hx =>
      obtain ⟨l₀, hl₀, rfl⟩ := Option.map_eq_some_iff.1 hl
      dsimp only
      have hk : Keeps s { s with
          loaded := some (refill l₀), xfade := some { x with next := refill x.next } } := by
        refine ⟨rfl, rfl, rfl, ?_, ?_, rfl⟩
        · rw [hl₀]
          exact congrArg some lib_refill
        · rw [hx]
          exact congrArg (fun lib => some (x.order, lib)) lib_refill
      have h' := h.of_keeps hk
      generalize hs' : ({ s with
          loaded := some (refill l₀), xfade := some { x with next := refill x.next } } :
          State S D) = s' at h'
      have hl' : s'.loaded = some (refill l₀) := by rw [← hs']
      have hx' : s'.xfade = some { x with next := refill x.next } := by rw [← hs']
      split
      · exact h'.xfadeFinish
      split
      · split
        · exact h'.xfadeFinish
        · exact h'
      generalize (mixSamples D _ _ _ _ _ : List S) = mix
      have hw : Keeps s' (write s' mix).2 := keeps_write
      generalize write s' mix = w at hw
      obtain ⟨accepted, s''⟩ := w
      dsimp only at hw ⊢
      split
      · exact h'.of_keeps hw
      · refine ih ((h'.of_keeps hw).of_keeps ⟨rfl, rfl, rfl, ?_, ?_, rfl⟩)
        · rw [hw.loaded, hl']
          exact congrArg some lib_advance
        · rw [hw.xfade, hx']
          exact congrArg (fun lib => some (x.order, lib)) lib_advance
    · exact h

theorem Follows.pumpRound (h : Follows s) : Follows (pumpRound e s).2 := by
  unfold AudioPlayer.pumpRound
  split
  · exact h
  · next l hl =>
    split
    · have hw : Follows (write (AudioPlayer.ensureSeg s) l.unwritten).2 :=
        h.ensureSeg.of_keeps keeps_write
      refine hw.of_keeps ⟨rfl, rfl, rfl, ?_, rfl, rfl⟩
      dsimp only
      rw [Option.map_map]
      exact Option.map_congr fun l _ => lib_advance
    split
    · have hx := (h.of_keeps keeps_decodeMore).maybeStartXfade (e := e)
      dsimp only
      split
      · exact hx.pumpXfade
      · exact hx
    split
    · exact h
    split
    · split
      · next s' hs' => exact h.softAdvance hs'
      · exact h.of_keeps ⟨rfl, rfl, rfl, rfl, rfl, rfl⟩
    · exact h

theorem Follows.pumpLoop {n : Nat} (h : Follows s) : Follows (pumpLoop e n s) := by
  induction n generalizing s with
  | zero => exact h
  | succ n ih =>
    rw [AudioPlayer.pumpLoop]
    have hr := h.pumpRound (e := e)
    split
    · next s' hs' =>
      rw [hs'] at hr
      exact ih hr
    · next s' hs' =>
      rw [hs'] at hr
      exact hr

theorem Follows.pump (h : Follows s) : Follows (pump e s) := by
  unfold AudioPlayer.pump
  split
  · exact h
  · have hx : Follows (if s.xfade.isNone then AudioPlayer.maybeStartXfade e s else s) := by
      split
      · exact h.maybeStartXfade
      · exact h
    dsimp only
    generalize (if s.xfade.isNone then AudioPlayer.maybeStartXfade e s else s) = s' at hx
    split
    · exact hx.pumpXfade
    · exact hx.pumpLoop

/-! ## Loading and seeking -/

theorem keeps_eqResetState : Keeps s (eqResetState s) := by
  refine ⟨rfl, rfl, rfl, ?_, rfl, rfl⟩
  unfold eqResetState
  dsimp only
  rw [Option.map_map]
  rfl

theorem follows_hardLoad {orderPos : Nat} {autoplay : Bool} (hp : s.order.Perm s.queue)
    (ho : orderPos < s.order.length) : Follows (hardLoad e s orderPos autoplay) := by
  unfold AudioPlayer.hardLoad
  split
  · next hnone => exact absurd ho (Nat.not_lt.2 (List.getElem?_eq_none_iff.1 hnone))
  · next lib hlib =>
    dsimp only
    have hl := (follows_opened (s := { s with
      orderPos
      decodeOrder := orderPos
      loaded := openTrack e s lib
      segments := []
      xfade := none
      gaplessBlocked := false
      ended := false
      swFrames := 0 }) hp rfl rfl (fun _ => map_lib_openTrack) hlib).of_keeps keeps_closeOrFlush
    have hr := hl.of_keeps keeps_eqResetState
    split
    · exact hr.play
    · exact hr

theorem Follows.hardLoad {orderPos : Nat} {autoplay : Bool} (h : Follows s) :
    Follows (hardLoad e s orderPos autoplay) := by
  by_cases ho : orderPos < s.order.length
  · exact follows_hardLoad h.perm ho
  · unfold AudioPlayer.hardLoad
    rw [List.getElem?_eq_none (Nat.not_lt.1 ho)]
    exact h

theorem Follows.seekTo {frame : Nat} (h : Follows s) : Follows (seekTo e s frame) := by
  have hr := h.resync (e := e)
  unfold AudioPlayer.seekTo
  dsimp only
  generalize AudioPlayer.resync e s = s' at hr
  split
  · exact hr
  · next l hl =>
    refine Follows.pump (Follows.of_keeps (Follows.of_keeps ?_ keeps_flush) keeps_eqResetState)
    refine ⟨hr.perm, fun lib he => ?_, fun _ _ he => (by cases he),
      fun _ hsg => absurd hsg List.not_mem_nil⟩
    exact hr.head lib (by rw [hl]; exact he)

theorem Follows.rewind {l : Loaded S D} {frame : Nat} (h : Follows s) (hl : s.loaded = some l) :
    Follows (rewind e s l frame) := by
  refine Follows.of_keeps ?_ keeps_eqResetState
  refine ⟨h.perm, fun lib he => ?_, fun _ _ he => (by cases he),
    fun _ hsg => absurd hsg List.not_mem_nil⟩
  exact h.head lib (by rw [hl]; exact he)

theorem Follows.reopenAtCurrent (h : Follows s) : Follows (reopenAtCurrent e s) := by
  unfold AudioPlayer.reopenAtCurrent
  split
  · exact h
  · next l hl =>
    dsimp only
    split
    · exact (h.rewind hl).play.pump
    · exact h.rewind hl

omit [Dsp S D] in
theorem Follows.advanceAudible (h : Follows s) : Follows (advanceAudible s) := by
  have hsub (played : Nat) (segs : List Seg) : dropPlayed played segs ⊆ segs := by
    fun_induction dropPlayed played segs with
    | case1 a b rest _ ih => exact List.subset_cons_of_subset a ih
    | case2 a b rest _ => exact List.Subset.refl _
    | case3 segs _ => exact List.Subset.refl _
  exact ⟨h.perm, h.head, h.blend, fun sg hsg => h.segs sg (hsub _ _ hsg)⟩

theorem Follows.finishTrack (h : Follows s) : Follows (finishTrack e s) := by
  unfold AudioPlayer.finishTrack
  split
  · split
    · exact h.hardLoad
    · exact ⟨h.perm, h.head, h.blend, fun _ hsg => absurd hsg List.not_mem_nil⟩
  · exact h

/-! ## A new order -/

section
omit [Dsp S D]

theorem swap_perm {v : List Nat} {i j : Nat} : (swap v i j).Perm v := by
  unfold swap
  split
  · next a b ha hb =>
    obtain ⟨hi, rfl⟩ := List.getElem?_eq_some_iff.1 ha
    obtain ⟨hj, rfl⟩ := List.getElem?_eq_some_iff.1 hb
    exact List.set_set_perm hi hj
  · exact .refl _

theorem shuffleTo_perm {draw : UInt64 → Nat → Nat × UInt64} {i : Nat} {v : List Nat}
    {rng : UInt64} : (shuffleTo draw i v rng).1.Perm v := by
  induction i generalizing v rng with
  | zero => exact .refl _
  | succ i ih => exact ih.trans swap_perm

theorem newOrder_perm : (newOrder s).1.Perm s.queue := by
  unfold newOrder
  split
  · exact shuffleTo_perm
  · exact .refl _

theorem getElem?_idxOf? {order : List Nat} {lib p : Nat} (h : order.idxOf? lib = some p) :
    order[p]? = some lib := by
  obtain ⟨hp, he, -⟩ := List.idxOf?_eq_some_iff.1 h
  rw [List.getElem?_eq_getElem hp, he]

theorem exists_idxOf? {order : List Nat} {lib : Nat} (h : lib ∈ order) :
    ∃ p, order.idxOf? lib = some p :=
  Option.isSome_iff_exists.1 (List.isSome_idxOf?.2 h)

/-- A segment under a new order. -/
def Seg.moved (order : List Nat) (sg : Seg) : Seg :=
  { sg with orderPos := (order.idxOf? sg.libIndex).getD sg.orderPos }

theorem getElem?_moved {order : List Nat} {sg : Seg} (h : sg.libIndex ∈ order) :
    order[(sg.moved order).orderPos]? = some sg.libIndex := by
  obtain ⟨p, hp⟩ := exists_idxOf? h
  unfold Seg.moved
  rw [hp]
  exact getElem?_idxOf? hp

/-- A new order keeps each place that of its track, but for the track that is blended in. -/
theorem Follows.applyOrder {keepLib : Option Nat} (h : Follows s)
    (hx : ∀ x, s.xfade = some x → (newOrder s).1[x.order]? = some x.next.lib) :
    Follows (applyOrder s keepLib) where
  perm := newOrder_perm
  head lib he := by
    have hlib := h.head lib he
    obtain ⟨p, hp⟩ := exists_idxOf?
      (newOrder_perm.symm.subset (h.perm.subset (List.mem_of_getElem? hlib)))
    unfold AudioPlayer.applyOrder
    dsimp only
    rw [hlib, Option.bind_some, hp]
    exact getElem?_idxOf? hp
  blend no lib he := by
    obtain ⟨x, hxs, hxe⟩ := Option.map_eq_some_iff.1 he
    cases hxe
    exact hx x hxs
  segs sg hsg := by
    obtain ⟨sg', hm, rfl⟩ := List.mem_map.1 hsg
    have hc := (List.mem_filter.1 hm).2
    exact getElem?_moved (List.contains_iff_mem.1 hc)

/-- The track at the place of a new order: what is heard if it is one of the queue, and else the
track that is asked for. -/
theorem applyOrder_at {lib : Nat} (h : lib ∈ s.queue) :
    (applyOrder s (some lib)).order[(applyOrder s (some lib)).orderPos]? =
      some (((s.segments.find? fun sg => s.queue.contains sg.libIndex).map Seg.libIndex).getD
        lib) := by
  have hcontains (k : Nat) : (newOrder s).1.contains k = s.queue.contains k :=
    newOrder_perm.contains_eq
  unfold applyOrder
  dsimp only
  rw [List.head?_map, List.head?_filter]
  simp only [hcontains]
  cases hf : s.segments.find? fun sg => s.queue.contains sg.libIndex with
  | none =>
    obtain ⟨p, hp⟩ := exists_idxOf? (newOrder_perm.symm.subset h)
    dsimp only [Option.map_none, Option.getD_none]
    rw [hp]
    exact getElem?_idxOf? hp
  | some sg =>
    have hin := List.find?_some hf
    exact getElem?_moved (newOrder_perm.symm.subset (List.contains_iff_mem.1 hin))

/-! ## Taps -/

theorem map_lib_play : (play e s).loaded.map Loaded.lib = s.loaded.map Loaded.lib := by
  unfold play
  split
  · rfl
  · next l hl =>
    dsimp only
    split
    · rfl
    · split
      · rw [hl]
        rfl
      · rfl

end

theorem map_lib_hardLoad {n lib : Nat} {autoplay : Bool} (h : s.order[n]? = some lib) :
    (hardLoad e s n autoplay).loaded.map Loaded.lib = (openTrack e s lib).map Loaded.lib := by
  unfold hardLoad
  rw [h]
  dsimp only
  have hk := keeps_closeOrFlush (s := { s with
    orderPos := n
    decodeOrder := n
    loaded := openTrack e s lib
    segments := []
    xfade := none
    gaplessBlocked := false
    ended := false
    swFrames := 0 })
  split
  · exact map_lib_play.trans (keeps_eqResetState.loaded.trans hk.loaded)
  · exact keeps_eqResetState.loaded.trans hk.loaded

/-- The track that is played when a row is tapped: the first of the segments whose track is in the
list, and only else the one that is tapped. -/
def tapped (s : State S D) (lib : Nat) : Nat :=
  ((s.segments.find? fun sg => (currentTrackList s).contains sg.libIndex).map Seg.libIndex).getD lib

theorem map_lib_rowTap {i lib : Nat} (hs : showingTracks s = true)
    (hi : (currentTrackList s)[i]? = some lib) :
    (rowTap e s i).loaded.map Loaded.lib = (openTrack e s (tapped s lib)).map Loaded.lib := by
  obtain ⟨hlt, -⟩ := List.getElem?_eq_some_iff.1 hi
  have hmin : min i ((currentTrackList s).length - 1) = i := by omega
  unfold rowTap playFrom
  rw [if_pos hs, if_pos hlt, hmin, hi]
  exact map_lib_hardLoad (applyOrder_at (s := { s with queue := currentTrackList s })
    (List.mem_of_getElem? hi))

theorem Follows.rowTap {i : Nat} (h : Follows s) : Follows (rowTap e s i) := by
  unfold AudioPlayer.rowTap
  split
  · split
    · next hlt =>
      unfold playFrom
      split
      · exact h
      · next lib hlib =>
        have hat := applyOrder_at (s := { s with queue := currentTrackList s })
          (List.mem_of_getElem? hlib)
        exact follows_hardLoad newOrder_perm (List.getElem?_eq_some_iff.1 hat).1
    · exact h
  · split
    · exact h.of_keeps ⟨rfl, rfl, rfl, rfl, rfl, rfl⟩
    · exact h

/-! ## Runs -/

/-- There is nothing before the library is read. -/
def Unread (s : State S D) : Prop :=
  s.scanned = false → s.library = [] ∧ s.albums = [] ∧ s.artists = [] ∧ s.genres = [] ∧
    s.queue = [] ∧ s.order = []

omit [Dsp S D] in
theorem Unread.of_same (h : Unread s) (hs : Same s t) : Unread t := by
  intro ht
  obtain ⟨hl, ha, hr, hg, hq, ho⟩ := h (hs.scanned ▸ ht)
  exact ⟨hs.library.trans hl, (congrArg Settings.albums hs).trans ha,
    (congrArg Settings.artists hs).trans hr, (congrArg Settings.genres hs).trans hg,
    hs.queue.trans hq, hs.order.trans ho⟩

omit [Dsp S D] in
theorem Unread.groupsFor (h : Unread s) (hs : s.scanned = false) : groupsFor s = [] := by
  obtain ⟨-, ha, hr, hg, -⟩ := h hs
  unfold AudioPlayer.groupsFor
  rw [ha, hr, hg]
  split
  · rfl
  · split
    · rfl
    · split <;> rfl

omit [Dsp S D] in
theorem Unread.currentTrackList (h : Unread s) (hs : s.scanned = false) :
    currentTrackList s = [] := by
  unfold AudioPlayer.currentTrackList
  rw [(h hs).1, h.groupsFor hs]
  split
  · rfl
  · split <;> rfl

/-- No row is shown yet. -/
theorem Unread.rowTap_eq {i : Nat} (h : Unread s) (hs : s.scanned = false) :
    rowTap e s i = s := by
  unfold rowTap
  rw [h.currentTrackList hs, h.groupsFor hs]
  split <;> rfl

/-- Only a call reads the library. -/
theorem scanned_step {c : Command × Env S D} (hc : c.1 ≠ .tick) :
    (step s c).scanned = s.scanned := by
  obtain ⟨c, e⟩ := c
  unfold step
  cases c with
  | toggle =>
    dsimp only
    split
    · rfl
    · exact same_play.scanned
  | play => exact same_play.scanned
  | pause => rfl
  | stop => exact same_seekTo.scanned
  | seek frame => exact same_seekTo.scanned
  | next =>
    unfold next
    dsimp only
    split
    · rfl
    · exact same_hardLoad.scanned
  | prev =>
    unfold prev
    dsimp only
    split
    · rfl
    split
    · exact same_seekTo.scanned
    · exact same_hardLoad.scanned
  | toggleShuffle => rfl
  | toggleRepeat => rfl
  | setTab tab => rfl
  | goBack => rfl
  | rowTap i =>
    unfold rowTap playFrom
    dsimp only
    split
    · split
      · split
        · rfl
        · exact same_hardLoad.scanned.trans rfl
      · rfl
    · split <;> rfl
  | cycleXfade => rfl
  | setBackgrounded bg =>
    unfold setBackgrounded
    dsimp only
    split
    · rfl
    · exact same_reopenAtCurrent.scanned.trans rfl
  | tick => exact absurd rfl hc
  | consume n => rfl

/-- After a call it is read. -/
theorem scanned_tick : (step s (.tick, e)).scanned = true := by
  have hscan : (firstScan e { s with takes := e.takes }).scanned = true := by
    unfold firstScan
    split
    · next hsc => exact hsc
    · dsimp only
      split
      · rfl
      · exact same_hardLoad.scanned.trans rfl
  exact same_engineStep.scanned.trans hscan

theorem Unread.step {c : Command × Env S D} (h : Unread s) : Unread (step s c) := by
  obtain ⟨c, e⟩ := c
  have h' : Unread { s with takes := e.takes } := h
  cases c with
  | toggle =>
    unfold AudioPlayer.step
    dsimp only
    split
    · exact h'.of_same rfl
    · exact h'.of_same same_play
  | play => exact h'.of_same same_play
  | pause => exact h'.of_same rfl
  | stop =>
    have hp : Unread (pause { s with takes := e.takes }) := h
    exact hp.of_same same_seekTo
  | seek frame => exact h'.of_same same_seekTo
  | next =>
    unfold AudioPlayer.step next
    dsimp only
    split
    · exact h'
    · exact h'.of_same same_hardLoad
  | prev =>
    unfold AudioPlayer.step prev
    dsimp only
    split
    · exact h'
    split
    · exact h'.of_same same_seekTo
    · exact h'.of_same same_hardLoad
  | toggleShuffle =>
    intro hs
    obtain ⟨hl, ha, hr, hg, hq, -⟩ := h hs
    have hp : (AudioPlayer.step s (.toggleShuffle, e)).order.Perm s.queue :=
      newOrder_perm (s := { s with takes := e.takes, shuffle := !s.shuffle })
    rw [hq] at hp
    exact ⟨hl, ha, hr, hg, hq, hp.eq_nil⟩
  | toggleRepeat => exact h
  | setTab tab => exact h
  | goBack => exact h
  | rowTap i =>
    intro hs
    by_cases hsc : s.scanned = false
    · have hstep : AudioPlayer.step s (.rowTap i, e) = { s with takes := e.takes } :=
        h'.rowTap_eq hsc
      rw [hstep]
      exact h hsc
    · have hsame : (AudioPlayer.step s (.rowTap i, e)).scanned = s.scanned :=
        scanned_step (fun h => by cases h)
      exact absurd (hsame.symm.trans hs) hsc
  | cycleXfade => exact h
  | setBackgrounded bg =>
    unfold AudioPlayer.step setBackgrounded
    dsimp only
    split
    · exact h'
    · have hb : Unread { s with takes := e.takes, backgrounded := bg } := h
      exact hb.of_same same_reopenAtCurrent
  | tick =>
    intro hs
    exact absurd (scanned_tick.symm.trans hs) (by decide)
  | consume n => exact h

theorem Follows.engineStep (h : Follows s) (hu : Unread s) : Follows (engineStep e s) := by
  have hf : Follows (firstScan e s) := by
    unfold firstScan
    split
    · exact h
    · next hs =>
      dsimp only
      have hlen : (List.range e.scan.length).length = e.scan.length := List.length_range
      split
      · next hempty =>
        -- Nothing was loaded before, for there was no order.
        have ho := (hu (Bool.eq_false_iff.2 hs)).2.2.2.2.2
        have hnone (n : Nat) (lib : Nat) (he : s.order[n]? = some lib) : False := by
          rw [ho] at he
          cases he
        exact ⟨.refl _, fun lib he => (hnone _ _ (h.head lib he)).elim,
          fun no lib he => (hnone _ _ (h.blend no lib he)).elim,
          fun sg hsg => (hnone _ _ (h.segs sg hsg)).elim⟩
      · next hne =>
        refine follows_hardLoad (.refl _) ?_
        rw [hlen]
        exact List.length_pos_iff.2 fun he => hne (List.isEmpty_iff.2 he)
  unfold AudioPlayer.engineStep
  dsimp only
  generalize firstScan e s = a at hf
  split
  · exact hf
  · have ha := hf.advanceAudible
    have hp : Follows (if (AudioPlayer.advanceAudible a).playing then
        AudioPlayer.pump e (AudioPlayer.advanceAudible a) else AudioPlayer.advanceAudible a) := by
      split
      · exact ha.pump
      · exact ha
    exact Follows.finishTrack (hp.of_keeps ⟨rfl, rfl, rfl, rfl, rfl, rfl⟩)

/-- A shuffle leaves the track that is blended in at its place. -/
def Remapped (s : State S D) (c : Command × Env S D) : Prop :=
  c.1 = .toggleShuffle → ∀ x, s.xfade = some x →
    (newOrder { s with shuffle := !s.shuffle }).1[x.order]? = some x.next.lib

theorem Follows.step_iff {c : Command × Env S D} (h : Follows s) (hu : Unread s) :
    Follows (step s c) ↔ Remapped s c := by
  obtain ⟨c, e⟩ := c
  have h' : Follows { s with takes := e.takes } := h.of_keeps ⟨rfl, rfl, rfl, rfl, rfl, rfl⟩
  by_cases hc : c = .toggleShuffle
  · subst hc
    refine ⟨fun hs _ x hx => hs.blend x.order x.next.lib ?_, fun hr => ?_⟩
    · exact congrArg (Option.map fun x => (x.order, x.next.lib)) hx
    · have ht : Follows { s with takes := e.takes, shuffle := !s.shuffle } :=
        h.of_keeps ⟨rfl, rfl, rfl, rfl, rfl, rfl⟩
      exact ht.applyOrder (hr rfl)
  · refine ⟨fun _ he => absurd he hc, fun _ => ?_⟩
    unfold AudioPlayer.step
    cases c with
    | toggle =>
      dsimp only
      split
      · exact h'.of_keeps ⟨rfl, rfl, rfl, rfl, rfl, rfl⟩
      · exact h'.play
    | play => exact h'.play
    | pause => exact h'.of_keeps ⟨rfl, rfl, rfl, rfl, rfl, rfl⟩
    | stop => exact Follows.seekTo (h'.of_keeps ⟨rfl, rfl, rfl, rfl, rfl, rfl⟩)
    | seek frame => exact h'.seekTo
    | next =>
      unfold next
      dsimp only
      split
      · exact h'
      · exact h'.hardLoad
    | prev =>
      unfold prev
      dsimp only
      split
      · exact h'
      split
      · exact h'.seekTo
      · exact h'.hardLoad
    | toggleShuffle => exact absurd rfl hc
    | toggleRepeat => exact h.of_keeps ⟨rfl, rfl, rfl, rfl, rfl, rfl⟩
    | setTab tab => exact h.of_keeps ⟨rfl, rfl, rfl, rfl, rfl, rfl⟩
    | goBack => exact h.of_keeps ⟨rfl, rfl, rfl, rfl, rfl, rfl⟩
    | rowTap i => exact h'.rowTap
    | cycleXfade => exact h.of_keeps ⟨rfl, rfl, rfl, rfl, rfl, rfl⟩
    | setBackgrounded bg =>
      unfold setBackgrounded
      dsimp only
      split
      · exact h'
      · exact Follows.reopenAtCurrent (h.of_keeps ⟨rfl, rfl, rfl, rfl, rfl, rfl⟩)
    | tick => exact h'.engineStep hu
    | consume n => exact h.of_keeps ⟨rfl, rfl, rfl, rfl, rfl, rfl⟩

/-- In a run in which each shuffle leaves a track that is blended in at its place, the order is that
of the queue, and each place in it is that of its track; a step keeps it so if and only if it is no
other shuffle. After a tap on the row of a track that can be opened, it is this track that is
decoded if and only if the first segment whose track is in the list, if any, is of this track. -/
theorem order_follows (h : Run (step · ·) Remapped ({} : State S D) s) :
    Follows s ∧ (∀ c, Follows (step s c) ↔ Remapped s c) ∧
      ∀ i lib (e : Env S D), showingTracks s = true → (currentTrackList s)[i]? = some lib →
        (openTrack e s lib).isSome →
        ((step s (.rowTap i, e)).loaded.map Loaded.lib = some lib ↔
          ∀ sg, (s.segments.find? fun sg => (currentTrackList s).contains sg.libIndex) = some sg →
            sg.libIndex = lib) := by
  have hs : Follows s ∧ Unread s := by
    refine h.invariant (J := fun s => Follows s ∧ Unread s) ⟨?_, fun _ => ?_⟩ fun c hs hr => ?_
    · exact ⟨.refl _, fun _ he => (by cases he), fun _ _ he => (by cases he),
        fun _ hsg => absurd hsg List.not_mem_nil⟩
    · exact ⟨rfl, rfl, rfl, rfl, rfl, rfl⟩
    · exact ⟨(hs.1.step_iff hs.2).2 hr, hs.2.step⟩
  refine ⟨hs.1, fun c => hs.1.step_iff hs.2, fun i lib e htab hi ho => ?_⟩
  have hrow : (step s (.rowTap i, e)).loaded.map Loaded.lib =
      (openTrack e s (tapped s lib)).map Loaded.lib :=
    map_lib_rowTap (s := { s with takes := e.takes }) htab hi
  rw [hrow]
  have hiff : (openTrack e s (tapped s lib)).map Loaded.lib = some lib ↔ tapped s lib = lib := by
    refine ⟨map_lib_openTrack, fun he => ?_⟩
    obtain ⟨l, hl⟩ := Option.isSome_iff_exists.1 ho
    rw [he, hl, Option.map_some, lib_openTrack hl]
  rw [hiff]
  unfold tapped
  cases s.segments.find? fun sg => (currentTrackList s).contains sg.libIndex with
  | none => exact ⟨fun _ sg hsg => (by cases hsg), fun _ => rfl⟩
  | some sg =>
    refine ⟨fun he sg' hsg => ?_, fun hall => hall sg rfl⟩
    cases hsg
    exact he

/-! ## Three tracks -/

instance plainDsp : Dsp Nat Unit where
  process d samples := (samples, d)
  resetEq d := d
  resetResampler d := d
  blend _ _ a b := a + b

/-- Three tracks of four frames each, and a device that takes two frames at once. -/
def threeTracks : Env Nat Unit where
  opens lib := some {
    channels := 1, totalFrames := 4, packets := [.audio [lib, lib, lib, lib]], dsp := () }
  seeks _ _ := none
  device := true
  takes := [2]
  rounds := 10
  drains := 0
  scan := List.replicate 3 ⟨"artist", "album", "genre"⟩

/-- The first track is played, and all tracks are shown. -/
def playFirst : List (Command × Env Nat Unit) :=
  [.tick, .play, .setTab 3, .tick].map fun c => (c, threeTracks)

/-- The first track is blended into the next, and then the tracks are shuffled. -/
def blendAndShuffle : List (Command × Env Nat Unit) :=
  [.tick, .cycleXfade, .play, .tick, .toggleShuffle].map fun c => (c, threeTracks)

theorem run_commands {Ok : State Nat Unit → Command × Env Nat Unit → Prop}
    (cs : List Command) (s : State Nat Unit) (h : ∀ s, ∀ c ∈ cs, Ok s (c, threeTracks)) :
    Run (step · ·) Ok s ((cs.map fun c => (c, threeTracks)).foldl (step · ·) s) := by
  refine run_of_goes ?_
  induction cs generalizing s with
  | nil => exact trivial
  | cons c cs ih =>
    exact ⟨h s c List.mem_cons_self, ih _ fun s c hc => h s c (List.mem_cons_of_mem _ hc)⟩

/-- The row of the track that is heard is tapped. -/
theorem order_follows_tapped :
    (step (playFirst.foldl (step · ·) {}) (.rowTap 0, threeTracks)).loaded.map Loaded.lib =
      some 0 := by
  have hrun : Run (step · ·) Remapped ({} : State Nat Unit) (playFirst.foldl (step · ·) {}) := by
    refine run_commands [.tick, .play, .setTab 3, .tick] {} fun s c hc he => ?_
    have hne : Command.toggleShuffle ∉ [Command.tick, .play, .setTab 3, .tick] := by simp
    exact absurd (he ▸ hc) hne
  refine ((order_follows hrun).2.2 0 0 threeTracks (by decide) (by decide)
    (by decide)).2 fun sg hsg => ?_
  have hfind : ((playFirst.foldl (step · ·) ({} : State Nat Unit)).segments.find? fun sg =>
      (currentTrackList (playFirst.foldl (step · ·) {})).contains sg.libIndex).map Seg.libIndex =
        some 0 := by decide
  rw [hsg] at hfind
  exact Option.some.inj hfind

/-- The row of another track is tapped, and what is heard is played again. And a shuffle takes the
place of the track that is blended in from it. -/
theorem tapped_other :
    (¬ ∀ s : State Nat Unit, Run (step · ·) (fun _ _ => True) {} s →
      ∀ i lib e, showingTracks s = true → (currentTrackList s)[i]? = some lib →
        (openTrack e s lib).isSome → (step s (.rowTap i, e)).loaded.map Loaded.lib = some lib) ∧
    ¬ ∀ s : State Nat Unit, Run (step · ·) (fun _ _ => True) {} s →
      ∀ no lib, (s.xfade.map fun x => (x.order, x.next.lib)) = some (no, lib) →
        s.order[no]? = some lib := by
  constructor
  · intro h
    have hrun : Run (step · ·) (fun _ _ => True) {} (playFirst.foldl (step · ·) {}) :=
      run_commands [.tick, .play, .setTab 3, .tick] {} fun _ _ _ => trivial
    have htap := h _ hrun 1 1 threeTracks (by decide) (by decide)
      (by decide)
    revert htap
    decide
  · intro h
    have hrun : Run (step · ·) (fun _ _ => True) {} (blendAndShuffle.foldl (step · ·) {}) :=
      run_commands [.tick, .cycleXfade, .play, .tick, .toggleShuffle] {} fun _ _ _ => trivial
    have hplace := h _ hrun 1 1 (by decide)
    revert hplace
    decide

end Wandr.AudioPlayer
