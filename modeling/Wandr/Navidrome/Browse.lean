import Mathlib.Data.List.Perm.Basic
import Wandr.Lib.Machine
import Wandr.Navidrome.Client

/-!
# The screens

A screen is put over the others when its fetch is answered, whatever has become of these: another
tab may have been selected, or another screen opened or closed. Then it does not belong where it is.

* `Belongs`: each screen was asked for on the one below it, and the lowest by its tab or a search;
* `browse_belongs`: so it is if and only if each answer finds the screens as they were.
-/

namespace Wandr.Navidrome

open Machine

variable {s : State} {tab : Int} {stack : List Screen}

/-- A screen asked for in this way goes over these screens. -/
def Fits (tab : Int) (stack : List Screen) : Origin → Prop
  | .tab t => stack = [] ∧ t = tab
  | .row below => stack.head?.map Screen.number = some below
  | .search below => stack = [] ∨ stack.head?.map Screen.number = below

/-- Each screen goes over those below it. -/
def Belongs (tab : Int) : List Screen → Prop
  | [] => True
  | scr :: rest => Fits tab rest scr.origin ∧ Belongs tab rest

/-- The numbers of the requests that have a screen, are fetched, or are to be fetched. -/
def numbers (s : State) : List Nat :=
  s.stack.map Screen.number ++
    (s.fetches.map Ask.number ++ (s.pendingNav.map Ask.number).toList)

/-- The screens belong where they are, and each request has one screen, one task, or none. -/
structure Placed (s : State) : Prop where
  belongs : Belongs s.tab s.stack
  nodup : (numbers s).Nodup
  lt : ∀ n ∈ numbers s, n < s.asked

/-- An answer that opens a screen finds the screen on top that it was asked for on, or none if it is
that of the selected tab. -/
def OnTop (s : State) : Input → Prop
  | .fetched k (.ok reply) => ∀ a scr, s.fetches[k]? = some a → s.client = true →
    screenOf a reply = some scr → Fits s.tab s.stack a.origin
  | _ => True

namespace Placed

theorem of_eq {t : State} (h : Placed s) (ht : t.tab = s.tab) (hs : t.stack = s.stack)
    (hf : t.fetches = s.fetches) (hn : t.pendingNav = s.pendingNav) (ha : t.asked = s.asked) :
    Placed t := by
  have hnum : numbers t = numbers s := by
    unfold numbers
    rw [hs, hf, hn]
  exact ⟨by rw [ht, hs]; exact h.belongs, hnum ▸ h.nodup, by rw [hnum, ha]; exact h.lt⟩

/-- Something else is to be fetched. -/
theorem ask (h : Placed s) (nav : Nav) (origin : Origin) : Placed (ask s nav origin) := by
  have hnum : numbers s = (s.stack.map Screen.number ++ s.fetches.map Ask.number) ++
      (s.pendingNav.map Ask.number).toList := (List.append_assoc _ _ _).symm
  have hask : numbers (Navidrome.ask s nav origin) =
      (s.stack.map Screen.number ++ s.fetches.map Ask.number) ++ [s.asked] :=
    (List.append_assoc _ _ _).symm
  have hkept : ∀ n ∈ s.stack.map Screen.number ++ s.fetches.map Ask.number, n < s.asked :=
    fun n hn => h.lt n (hnum ▸ List.mem_append_left _ hn)
  refine ⟨h.belongs, ?_, fun n hn => ?_⟩
  · rw [hask]
    refine List.nodup_append.2 ⟨(List.nodup_append.1 (hnum ▸ h.nodup)).1,
      List.pairwise_singleton _ _, fun n hn m hm => ?_⟩
    rw [List.mem_singleton.1 hm]
    exact Nat.ne_of_lt (hkept n hn)
  · rw [hask] at hn
    rcases List.mem_append.1 hn with hn | hn
    · exact Nat.lt_succ_of_lt (hkept n hn)
    · rw [List.mem_singleton.1 hn]
      exact Nat.lt_succ_self _

/-- Screens are closed. -/
theorem close (h : Placed s) {stack : List Screen} (tab : Int) (hs : stack.Sublist s.stack)
    (hb : Belongs tab stack) : Placed { s with stack, tab } := by
  have hsub : (numbers { s with stack, tab }).Sublist (numbers s) :=
    (hs.map Screen.number).append_right _
  exact ⟨hb, hsub.nodup h.nodup, fun n hn => h.lt n (hsub.subset hn)⟩

theorem spawnFetch (h : Placed s) : Placed (spawnFetch s) := by
  unfold Navidrome.spawnFetch
  split
  · next a ha =>
    have hnum : numbers { s with pendingNav := none, fetches := s.fetches ++ [a] } =
        numbers s := by
      unfold numbers
      rw [ha, List.map_append]
      exact congrArg _ (List.append_nil _)
    exact ⟨h.belongs, hnum ▸ h.nodup, hnum ▸ h.lt⟩
  · exact h

/-- The answer has come to a fetch; if it opens a screen, the screen has its number. -/
theorem answered (h : Placed s) {k : Nat} {a : Ask} (ha : s.fetches[k]? = some a) :
    Placed { s with fetches := s.fetches.eraseIdx k } ∧
      ∀ scr, scr.number = a.number → Fits s.tab s.stack scr.origin →
        Placed { s with fetches := s.fetches.eraseIdx k, stack := scr :: s.stack } := by
  obtain ⟨hk, hat⟩ := List.getElem?_eq_some_iff.1 ha
  have hperm := (List.getElem_cons_eraseIdx_perm hk).map Ask.number
  rw [hat, List.map_cons] at hperm
  -- The number goes from the tasks to the screens.
  have hmoved : (a.number :: numbers { s with fetches := s.fetches.eraseIdx k }).Perm
      (numbers s) :=
    List.perm_middle.symm.trans ((hperm.append_right _).append_left _)
  have hnodup := List.nodup_cons.1 (hmoved.nodup_iff.2 h.nodup)
  refine ⟨⟨h.belongs, hnodup.2, fun n hn => h.lt n (hmoved.subset (List.mem_cons_of_mem _ hn))⟩,
    fun scr hscr hfits => ⟨⟨hfits, h.belongs⟩, ?_, fun n hn => ?_⟩⟩
  · have hcons : numbers { s with fetches := s.fetches.eraseIdx k, stack := scr :: s.stack } =
        a.number :: numbers { s with fetches := s.fetches.eraseIdx k } := by
      rw [← hscr]
      rfl
    rw [hcons]
    exact hmoved.nodup_iff.2 h.nodup
  · refine h.lt n (hmoved.subset ?_)
    rw [← hscr]
    exact hn

end Placed

/-! ## Steps -/

/-- What a fetch for a screen works on, but for the screens. -/
def rest (s : State) : Int × List Ask × Option Ask × Nat :=
  (s.tab, s.fetches, s.pendingNav, s.asked)

theorem noteEmpty_spec (s : State) (a : Ask) (reply : Reply) :
    rest (noteEmpty s a reply) = rest s ∧ (noteEmpty s a reply).stack = s.stack := by
  unfold noteEmpty
  split
  · split <;> exact ⟨rfl, rfl⟩
  · exact ⟨rfl, rfl⟩

/-- An answer opens the screen that shows it, if there is one. -/
theorem fetch_spec (s : State) (a : Ask) (r : Except String Reply) :
    rest (fetch s a r) = rest s ∧
      ((fetch s a r).stack = s.stack ∧
          (∀ reply scr, r = .ok reply → s.client = true → screenOf a reply ≠ some scr) ∨
        ∃ reply scr, r = .ok reply ∧ s.client = true ∧ screenOf a reply = some scr ∧
          (fetch s a r).stack = scr :: s.stack) := by
  unfold fetch
  split
  · next hclient =>
    split
    · split
      · exact ⟨rfl, .inl ⟨rfl, fun _ _ h => by cases h⟩⟩
      · exact ⟨rfl, .inl ⟨rfl, fun _ _ h => by cases h⟩⟩
    · next reply =>
      split
      · next scr hscr =>
        obtain ⟨hr, hs⟩ := noteEmpty_spec s a reply
        exact ⟨hr, .inr ⟨reply, scr, rfl, hclient, hscr, congrArg (scr :: ·) hs⟩⟩
      · next hnone =>
        refine ⟨rfl, .inl ⟨rfl, fun reply' scr hr _ hscr => ?_⟩⟩
        cases hr
        cases hnone.symm.trans hscr
  · next hclient => exact ⟨rfl, .inl ⟨rfl, fun _ _ _ hc => absurd hc hclient⟩⟩

theorem screenOf_spec {a : Ask} {reply : Reply} {scr : Screen} (h : screenOf a reply = some scr) :
    scr.number = a.number ∧ scr.origin = a.origin := by
  unfold screenOf at h
  dsimp only at h
  split at h <;> cases h <;> exact ⟨rfl, rfl⟩

/-- What the screens do not depend on. -/
theorem Placed.of_rest {t : State} (h : Placed s) (hr : rest t = rest s) (hs : t.stack = s.stack) :
    Placed t := by
  unfold rest at hr
  rw [Prod.mk.injEq, Prod.mk.injEq, Prod.mk.injEq] at hr
  exact h.of_eq hr.1 hs hr.2.1 hr.2.2.1 hr.2.2.2

theorem placed_rowTap (h : Placed s) (i : Nat) : Placed (rowTap s i) := by
  unfold rowTap
  split
  · exact h
  · next scr _ _ =>
    have hgo (nav : Nav) :
        Placed (ask { s with busy := true, last := "loading…" } nav (.row scr.number)) := by
      refine Placed.ask ?_ nav _
      exact h.of_rest rfl rfl
    dsimp only
    split
    · exact h
    · exact h.of_rest rfl rfl
    · exact hgo _
    · exact hgo _
    · exact hgo _
    · exact hgo _
    · unfold startQueue
      split
      · exact h
      · exact h.of_rest rfl rfl

theorem placed_setTab (h : Placed s) (t : Int) : Placed (setTab s t) := by
  refine Placed.ask ?_ _ _
  exact (h.close t (List.nil_sublist _) trivial).of_rest rfl rfl

theorem placed_goBack (h : Placed s) : Placed (goBack s) := by
  unfold goBack
  split
  · next a b rest hs =>
    have hb := h.belongs
    rw [hs] at hb
    refine h.close s.tab ?_ hb.2
    rw [hs]
    exact List.sublist_cons_self _ _
  · exact h

theorem placed_searchSubmit (h : Placed s) (query : String) : Placed (searchSubmit s query) := by
  unfold searchSubmit
  dsimp only
  split
  · exact h.of_rest rfl rfl
  · refine Placed.ask ?_ _ _
    exact h.of_rest rfl rfl

theorem placed_driver (h : Placed s) (r : Except String Unit) : Placed (driver s r) := by
  unfold driver
  split
  · dsimp only
    split
    · exact h.of_rest rfl rfl
    · refine Placed.ask ?_ _ _
      exact (h.close 0 (List.nil_sublist _) trivial).of_rest rfl rfl
  · exact h

theorem placed_engineTick (h : Placed s) (e : Tick) : Placed (engineTick s e) := by
  have hdriver : Placed (spawnDriver s) := by
    unfold spawnDriver
    split
    · exact h
    · exact h.of_rest rfl rfl
  have hfetch := hdriver.spawnFetch
  unfold engineTick
  generalize spawnFetch (spawnDriver s) = t at hfetch
  have hplay : Placed (spawnPlay t) := by
    unfold spawnPlay
    split
    · exact hfetch.of_rest rfl rfl
    · exact hfetch
  have hstop : Placed (stopRequested (spawnPlay t) e.stop) := by
    unfold stopRequested
    split
    · exact hplay.of_rest rfl rfl
    · exact hplay
  have hopen : Placed (openPending (stopRequested (spawnPlay t) e.stop) e.opens) := by
    unfold openPending
    split
    · dsimp only
      split <;> exact hstop.of_rest rfl rfl
    · exact hstop
  unfold drive
  dsimp only
  split
  · split <;> exact hopen.of_rest rfl rfl
  · exact hopen

theorem placed_fetched (h : Placed s) {k : Nat} {a : Ask} {r : Except String Reply}
    (ha : s.fetches[k]? = some a) (hin : OnTop s (.fetched k r)) :
    Placed (fetch { s with fetches := s.fetches.eraseIdx k } a r) := by
  obtain ⟨herase, hpush⟩ := h.answered ha
  obtain ⟨hrest, ⟨hs, -⟩ | ⟨reply, scr, rfl, hclient, hscr, hs⟩⟩ :=
    fetch_spec { s with fetches := s.fetches.eraseIdx k } a r
  · exact herase.of_rest hrest hs
  · obtain ⟨hnumber, horigin⟩ := screenOf_spec hscr
    have hfits := hin a scr ha hclient hscr
    rw [← horigin] at hfits
    exact (hpush scr hnumber hfits).of_rest hrest hs

theorem placed_step (h : Placed s) (i : Input) (hin : OnTop s i) : Placed (step s i) := by
  cases i with
  | rowTap i => exact placed_rowTap h i
  | setTab t => exact placed_setTab h t
  | goBack => exact placed_goBack h
  | skip delta =>
    unfold step skip
    dsimp only
    split
    · exact h
    · split
      · exact h.of_rest rfl rfl
      · exact h
  | openSearch => exact h.of_rest rfl rfl
  | closeSearch => exact h.of_rest rfl rfl
  | searchSubmit query => exact placed_searchSubmit h query
  | tick e => exact placed_engineTick h e
  | driver r => exact placed_driver h r
  | fetched k r =>
    unfold step
    dsimp only
    split
    · next a ha => exact placed_fetched h ha hin
    · exact h
  | begun k url http =>
    unfold step play
    dsimp only
    split
    · split
      · split
        · exact h.of_rest rfl rfl
        · split <;> exact h.of_rest rfl rfl
      · exact h.of_rest rfl rfl
    · exact h
  | probed k r =>
    unfold step probed
    dsimp only
    split
    · split <;> exact h.of_rest rfl rfl
    · exact h

/-- In a run in which each answer finds on top the screen it was asked for on, the screens belong
where they are, and no request has two. An answer keeps them so if and only if it does. -/
theorem browse_belongs (hrun : Run step OnTop {} s) :
    Belongs s.tab s.stack ∧ (s.stack.map Screen.number).Nodup ∧
      ∀ k r, Belongs (step s (.fetched k r)).tab (step s (.fetched k r)).stack ↔
        OnTop s (.fetched k r) := by
  have hplaced : Placed s :=
    hrun.invariant ⟨trivial, .nil, fun _ h => absurd h List.not_mem_nil⟩
      fun i h hi => placed_step h i hi
  refine ⟨hplaced.belongs, (List.nodup_append.1 hplaced.nodup).1, fun k r => ⟨fun hb => ?_,
    fun hin => (placed_step hplaced _ hin).belongs⟩⟩
  cases r with
  | error e => exact trivial
  | ok reply =>
    intro a scr ha hclient hscr
    have hstep : step s (.fetched k (.ok reply)) =
        fetch { s with fetches := s.fetches.eraseIdx k } a (.ok reply) := by
      unfold step
      dsimp only
      rw [ha]
    obtain ⟨hrest, ⟨-, hno⟩ | ⟨reply', scr', hr, -, hscr', hs⟩⟩ :=
      fetch_spec { s with fetches := s.fetches.eraseIdx k } a (.ok reply)
    · exact absurd hscr (hno reply scr rfl hclient)
    · cases hr
      cases hscr.symm.trans hscr'
      have htab : (step s (.fetched k (.ok reply))).tab = s.tab := by
        rw [hstep]
        exact congrArg Prod.fst hrest
      rw [htab, hstep, hs] at hb
      rw [← (screenOf_spec hscr).2]
      exact hb.1

/-! ## Another tab -/

def tickOnly : Input := .tick { stop := false, opens := .ok (), ended := false }

/-- The client is connected, and the albums are being fetched. -/
def albumsAsked : List Input := [tickOnly, .driver (.ok ()), tickOnly]

/-- The albums are shown, and a search is made on them. -/
theorem browse_belongs_search : Belongs 0 ((albumsAsked ++ [.fetched 0 (.ok ⟨"", none, []⟩),
    .searchSubmit "a", tickOnly, .fetched 0 (.ok ⟨"", none, []⟩)]).foldl step {}).stack := by
  have hrun : Run step OnTop ({} : State) ((albumsAsked ++ [.fetched 0 (.ok ⟨"", none, []⟩),
      .searchSubmit "a", tickOnly, .fetched 0 (.ok ⟨"", none, []⟩)]).foldl step {}) := by
    refine run_of_goes ⟨trivial, trivial, trivial, ?_, trivial, trivial, ?_, trivial⟩
    · rintro a scr ha - -
      cases ha
      exact ⟨rfl, rfl⟩
    · rintro a scr ha - -
      cases ha
      exact .inr rfl
  exact (browse_belongs hrun).1

/-- The albums are shown on the tab of the artists. -/
theorem albums_misplaced :
    ¬ ∀ s : State, Run step (fun _ _ => True) {} s → Belongs s.tab s.stack := by
  intro h
  have hrun : Run step (fun _ _ => True) ({} : State)
      ((albumsAsked ++ [Input.setTab 1, .fetched 0 (.ok ⟨"", none, []⟩)]).foldl step {}) :=
    run_of_goes ⟨trivial, trivial, trivial, trivial, trivial, trivial⟩
  have hb : Fits 1 [] (.tab 0) := (h _ hrun).1
  cases hb.2

end Wandr.Navidrome
