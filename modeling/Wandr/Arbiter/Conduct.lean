import Wandr.Arbiter.Footprint

/-!
# The conduct of the modules

Every handler stays within the footprint of its module:

* `Modules.onCommand_frame` bounds a command by the events, the effects and the
  parts of the store of its module, and `Modules.onEvent_frame` a reaction, whose
  events rank below the one reacted to, so that no cascade ever reaches the bound
  on its rounds (`Arbiter.handlers_ranked`, `Arbiter.rank_lt_maxCascadeDepth`);
* `Modules.onCommand_aside` and `Modules.onEvent_aside`: all the modules but the
  shell and the keyguard work aside;
* `Shell.onCommand_sameApps` and `KeyguardModule.onCommand_within`: these two
  change what is shown, but only the verbs of the shell that kill an app or
  register one change which apps run.
-/

namespace Wandr

variable [Fpu] {c : Ctx} {E : Event → Prop}

section

open Ctx.Within

variable {R : Store → Store → Prop} [IsPreorder Store R]

/-! ## The window manager -/

namespace Wm

theorem fanOverlays_aside {id : DisplayId} :
    c.Within R E (ModuleId.mayRequest .wm) (fanOverlays c id) := by
  unfold fanOverlays
  split
  · exact refl
  · exact deliverToAll refl fun _ => trivial

theorem pushSystemOrientation_aside {id : DisplayId} :
    c.Within R E (ModuleId.mayRequest .wm) (pushSystemOrientation c id) := by
  unfold pushSystemOrientation
  refine .trans ?_ fanOverlays_aside
  cases focusedEditor c.store id with
  | none =>
    dsimp only
    split
    · rw [if_pos (by simp)]
      exact deliverToHost refl trivial
    · exact refl
  | some ed =>
    dsimp only
    split
    · split
      · exact deliverToHost (deliverToHost refl trivial) trivial
      · exact deliverToHost refl trivial
    · exact deliverToHost refl trivial

variable [Store.Allows R .geometry]

theorem setImmersive_aside {imm : Bool} :
    c.Within R E (ModuleId.mayRequest .wm) (setImmersive c imm) := by
  unfold setImmersive
  dsimp only
  split
  · exact deliverToHost (foldl (modifyGeometry refl) (fun _ _ => request refl trivial) _) trivial
  · exact foldl (modifyGeometry refl) (fun _ _ => request refl trivial) _

theorem reportPanel_aside {w h dpi : Nat} :
    c.Within R (ModuleId.mayEmit .wm) (ModuleId.mayRequest .wm) (reportPanel c w h dpi).1 := by
  unfold reportPanel
  dsimp only
  split
  · refine .trans (emit (modifyGeometry refl) ?_) pushSystemOrientation_aside
    trivial
  · exact modifyGeometry refl

theorem onCommand_aside (verb : Verb) (args : String) :
    c.Within R (ModuleId.mayEmit .wm) (ModuleId.mayRequest .wm) (onCommand verb args c).1 := by
  cases verb with
  | reportOrientation =>
    simp only [onCommand]
    unfold cmdReportOrientation
    split
    · exact refl
    · split
      · exact refl
      · exact emit refl trivial
  | setOrientationLock =>
    simp only [onCommand]
    unfold cmdSetOrientationLock
    split
    · exact refl
    · exact .trans (modifyGeometry refl) pushSystemOrientation_aside
  | reportPanel =>
    simp only [onCommand]
    unfold cmdReportPanel
    split
    · split
      · exact reportPanel_aside
      · exact refl
    · exact refl
  | setImmersive =>
    simp only [onCommand]
    unfold cmdSetImmersive
    split
    · exact refl
    · split
      · exact refl
      · exact setImmersive_aside

theorem onEvent_aside (e : Event) :
    c.Within R (fun e' => e'.rank < e.rank ∧ ModuleId.mayEmit .wm e') (ModuleId.mayRequest .wm)
      (onEvent e c) := by
  unfold onEvent
  split
  · dsimp only
    split
    · exact deliverToHost (modifyGeometry refl) trivial
    · exact modifyGeometry refl
  · split
    · exact refl
    · exact deliverToHost refl trivial
  · split
    · exact deliverToHost refl trivial
    · exact refl
  · exact .trans (modifyGeometry refl) pushSystemOrientation_aside
  · dsimp only
    split
    · exact emit refl ⟨Nat.zero_lt_one, trivial⟩
    · exact refl
  · exact refl

end Wm

/-! ## Alarms and notifications -/

namespace AlarmManager

variable [Store.Allows R .alarms]

omit [Fpu] in
theorem onCommand_aside (verb : Verb) (args : String) :
    c.Within R E (ModuleId.mayRequest .alarm) (onCommand verb args c).1 := by
  cases verb with
  | schedule =>
    simp only [onCommand]
    unfold cmdSchedule
    split
    · split
      · exact refl
      · split
        · dsimp only
          exact write (p := .alarms) refl ⟨_, rfl⟩
        · exact refl
    · exact refl
  | cancel =>
    simp only [onCommand]
    unfold cmdCancel
    split
    · split
      · exact refl
      · split
        · exact refl
        · exact write (p := .alarms) refl ⟨_, rfl⟩
    · exact refl

omit [Fpu] in
theorem onEvent_aside (e : Event) : c.Within R E (ModuleId.mayRequest .alarm) (onEvent e c) := by
  unfold onEvent
  split
  · refine foldl (foldl (write (p := .alarms) refl ⟨_, rfl⟩) (fun _ _ => ?_) _) (fun _ _ => ?_) _
    · exact request refl trivial
    · exact deliverToHost refl trivial
  · exact refl

end AlarmManager

namespace Notify

omit [Fpu] in
theorem click_aside {n : Notification} :
    c.Within R E (ModuleId.mayRequest .notify) (click c n) := by
  unfold click
  split
  · exact deliverToHost (request refl trivial) trivial
  · exact request (request refl trivial) trivial

variable [Store.Allows R .notifications]

omit [Fpu] in
theorem onCommand_aside (verb : Verb) (args : String) :
    c.Within R E (ModuleId.mayRequest .notify) (onCommand verb args c).1 := by
  cases verb with
  | post =>
    simp only [onCommand]
    unfold cmdPost
    split
    · split
      · exact refl
      · split
        · exact refl
        · exact write refl Store.postNotification_write
    · exact refl
  | cancel =>
    simp only [onCommand]
    unfold cmdCancel
    split
    · split
      · exact refl
      · split
        · exact refl
        · exact write refl Store.cancelNotification_write
    · exact refl
  | list => exact refl
  | click =>
    simp only [onCommand]
    unfold cmdClick
    split
    · exact refl
    · next nid _ =>
      have h := Store.takeNotification_write (s := c.store) (n := nid)
      split
      · exact refl
      · next heq =>
        rw [heq] at h
        exact .trans (write refl h) click_aside

end Notify

/-! ## Power -/

namespace PowerModule

variable {clock : Clock} {m : PowerModule}

omit [Fpu] in
theorem onScreenState_within {live : Bool} :
    c.Within R E (ModuleId.mayRequest .power) (m.onScreenState clock live c).2 := by
  unfold onScreenState
  dsimp only
  split
  · exact refl
  · exact deliverToAll refl fun _ => trivial

omit [Fpu] in
theorem reconcileLight_within :
    c.Within R E (ModuleId.mayRequest .power) (m.reconcileLight clock c).2 := by
  unfold reconcileLight
  dsimp only
  split
  · exact request refl trivial
  · exact refl

omit [Fpu] in
theorem reassertBacklight_within :
    c.Within R E (ModuleId.mayRequest .power) (m.reassertBacklight c).2 := by
  unfold reassertBacklight
  split
  · exact refl
  · split
    · exact request refl trivial
    · exact refl

theorem applyAutoBrightness_within :
    c.Within R E (ModuleId.mayRequest .power) (m.applyAutoBrightness c).2 := by
  unfold applyAutoBrightness
  split
  · exact refl
  · split
    · exact refl
    · dsimp only
      split
      · exact refl
      · exact request refl trivial

omit [Fpu] in
theorem setPanelOn_within {on : Bool} (hE : E (.screenState on)) :
    c.Within R E (ModuleId.mayRequest .power) (m.setPanelOn clock on c).2 := by
  have h : c.Within R E (ModuleId.mayRequest .power)
      (if !m.blanked then c.request (.setDisplayPower on) else c) := by
    split
    · exact request refl trivial
    · exact refl
  unfold setPanelOn
  cases on with
  | false => exact .trans (emit h hE) reconcileLight_within
  | true => exact .trans (emit (.trans h reassertBacklight_within) hE) reconcileLight_within

omit [Fpu] in
theorem setPanelBlanked_within {blank : Bool} :
    c.Within R E (ModuleId.mayRequest .power) (m.setPanelBlanked blank c).2 :=
  deliverToAll (request refl trivial) fun _ => trivial

omit [Fpu] in
theorem ensureUnblanked_within :
    c.Within R E (ModuleId.mayRequest .power) (m.ensureUnblanked c).2 := by
  unfold ensureUnblanked
  split
  · exact .trans setPanelBlanked_within reassertBacklight_within
  · exact refl

omit [Fpu] in
theorem onCommsActive_within {p : Pid} {active : Bool}
    (hE : E (if active then .sensorAcquire .proximity p else .sensorRelease .proximity p)) :
    c.Within R E (ModuleId.mayRequest .power) (m.onCommsActive p active c).2 := by
  cases active with
  | true =>
    unfold onCommsActive
    simp only [Bool.not_true, Bool.false_eq_true, false_and, if_false, if_true]
    split
    · exact deliverToHost (emit refl hE) trivial
    · exact emit refl hE
  | false =>
    unfold onCommsActive
    simp only [Bool.not_false, if_true, true_and, Bool.false_eq_true, if_false]
    split
    · split
      · exact deliverToHost (emit ensureUnblanked_within hE) trivial
      · exact emit ensureUnblanked_within hE
    · split
      · exact deliverToHost (emit refl hE) trivial
      · exact emit refl hE

omit [Fpu] in
theorem onSurfaceRemoved_within {p : Pid} :
    c.Within R E (ModuleId.mayRequest .power) (m.onSurfaceRemoved p c).2 := by
  unfold onSurfaceRemoved
  dsimp only
  split
  · exact ensureUnblanked_within
  · exact refl

omit [Fpu] in
theorem onVideoCallActive_within {p : Pid} {active : Bool} :
    c.Within R E (ModuleId.mayRequest .power) (m.onVideoCallActive p active c).2 := by
  unfold onVideoCallActive
  split
  · exact ensureUnblanked_within
  · exact refl

omit [Fpu] in
theorem onProximityChanged_within {near : Bool} :
    c.Within R E (ModuleId.mayRequest .power) (m.onProximityChanged near c).2 := by
  unfold onProximityChanged
  dsimp only
  split
  · exact setPanelBlanked_within
  · split
    · exact ensureUnblanked_within
    · split
      · exact ensureUnblanked_within
      · exact refl

omit [Fpu] in
theorem onIdleTick_within (hE : E (.screenState false)) :
    c.Within R E (ModuleId.mayRequest .power) (m.onIdleTick clock c).2 := by
  unfold onIdleTick
  have h : c.Within R E (ModuleId.mayRequest .power) (m.reconcileLight clock c).2 :=
    reconcileLight_within
  generalize m.reconcileLight clock c = r at h ⊢
  obtain ⟨m', c'⟩ := r
  dsimp only at h ⊢
  split
  · exact h
  · split
    · exact h
    · split
      · exact h
      · split
        · exact h
        · split
          · exact h.trans (setPanelOn_within hE)
          · exact h

theorem onCommand_within (hE : ∀ on, E (.screenState on)) (verb : Verb) (args : String) :
    c.Within R E (ModuleId.mayRequest .power) (m.onCommand clock verb args c).2.1 := by
  cases verb with
  | reportPowerClass =>
    simp only [onCommand]
    unfold cmdReportClass
    split
    · split
      · exact refl
      · exact refl
    · exact refl
  | powerKey => exact setPanelOn_within (hE _)
  | panel =>
    simp only [onCommand]
    unfold cmdPanel
    dsimp only
    split
    · exact setPanelOn_within (hE _)
    · exact refl
  | brightness =>
    simp only [onCommand]
    unfold cmdBrightness
    split
    · exact reassertBacklight_within
    · split
      · dsimp only
        split
        · exact request refl trivial
        · exact refl
      · exact refl
    · exact refl
  | brightnessScale =>
    simp only [onCommand]
    unfold cmdBrightnessScale
    split
    · exact refl
    · split
      · exact refl
      · split
        · exact refl
        · dsimp only
          split
          · split
            · exact reassertBacklight_within
            · exact refl
          · exact refl
  | userActivity => exact refl
  | screenTimeout =>
    simp only [onCommand]
    unfold cmdScreenTimeout
    split
    · exact refl
    · exact refl
    · exact refl
    · split
      · exact refl
      · exact refl
    · exact refl

theorem onEvent_within (e : Event) :
    c.Within R (fun e' => e'.rank < e.rank ∧ ModuleId.mayEmit .power e')
      (ModuleId.mayRequest .power) (m.onEvent clock e c).2 := by
  unfold onEvent
  split
  · exact onScreenState_within
  · exact onSurfaceRemoved_within
  · next active =>
    cases active <;> exact onCommsActive_within ⟨Nat.zero_lt_one, trivial⟩
  · exact onVideoCallActive_within
  · exact onProximityChanged_within
  · exact applyAutoBrightness_within
  · exact onIdleTick_within ⟨Nat.lt_succ_self 2, trivial⟩
  · exact refl

end PowerModule

/-! ## Audio -/

namespace AudioModule

variable {m : AudioModule} {p : Pid} {a : String}

omit [Fpu]

theorem grant_aside {kind : FocusKind} :
    c.Within R E (ModuleId.mayRequest .audio) (m.grant p a kind c).2 := by
  unfold grant
  cases kind with
  | gain => exact deliverToAll refl fun _ => trivial
  | gainTransient =>
    dsimp only
    split
    · exact deliverToHost refl trivial
    · exact refl
  | gainTransientMayDuck =>
    dsimp only
    split
    · exact deliverToHost refl trivial
    · exact refl

theorem dropPid_aside : c.Within R E (ModuleId.mayRequest .audio) (m.dropPid p c).2 := by
  unfold dropPid
  dsimp only
  split
  · split
    · exact deliverToHost refl trivial
    · exact refl
  · exact refl

theorem cmdPlayTone_aside {args : String} :
    c.Within R E (ModuleId.mayRequest .audio) (m.cmdPlayTone args c).2.1 := by
  unfold cmdPlayTone
  dsimp only
  split
  · exact refl
  · exact deliverToHost refl trivial

theorem cmdVolume_aside {args : String} :
    c.Within R E (ModuleId.mayRequest .audio) (m.cmdVolume args c).2.1 := by
  unfold cmdVolume
  dsimp only
  split
  · exact refl
  · split
    · exact refl
    · exact deliverToHost refl trivial

theorem cmdMute_aside {args : String} :
    c.Within R E (ModuleId.mayRequest .audio) (m.cmdMute args c).2.1 := by
  unfold cmdMute
  dsimp only
  split
  · exact refl
  · split
    · exact refl
    · exact deliverToHost refl trivial

theorem cmdMicMute_aside {args : String} :
    c.Within R E (ModuleId.mayRequest .audio) (m.cmdMicMute args c).2.1 := by
  unfold cmdMicMute
  split
  · exact refl
  · exact deliverToAll refl fun _ => trivial

theorem cmdAppMute_aside {args : String} :
    c.Within R E (ModuleId.mayRequest .audio) (m.cmdAppMute args c).2.1 := by
  unfold cmdAppMute
  split
  · split
    · exact refl
    · split
      · exact refl
      · exact deliverToHost refl trivial
  · exact refl

theorem cmdAppMicMute_aside {args : String} :
    c.Within R E (ModuleId.mayRequest .audio) (m.cmdAppMicMute args c).2.1 := by
  unfold cmdAppMicMute
  split
  · split
    · exact refl
    · split
      · exact refl
      · exact deliverToHost refl trivial
  · exact refl

theorem cmdRoute_aside {args : String} :
    c.Within R E (ModuleId.mayRequest .audio) (m.cmdRoute args c).2.1 := by
  unfold cmdRoute
  split
  · split
    · exact refl
    · split
      · exact refl
      · exact deliverToHost refl trivial
  · exact refl

theorem cmdRequest_aside {args : String} :
    c.Within R E (ModuleId.mayRequest .audio) (m.cmdRequest args c).2.1 := by
  unfold cmdRequest
  split
  · split
    · exact refl
    · split
      · exact refl
      · exact grant_aside
  · exact refl

theorem cmdAbandon_aside {args : String} :
    c.Within R E (ModuleId.mayRequest .audio) (m.cmdAbandon args c).2.1 := by
  unfold cmdAbandon
  dsimp only
  split
  · exact refl
  · split
    · exact refl
    · exact dropPid_aside

theorem cmdCallVideo_aside {args : String} :
    c.Within R (ModuleId.mayEmit .audio) (ModuleId.mayRequest .audio)
      (m.cmdCallVideo args c).2.1 := by
  unfold cmdCallVideo
  dsimp only
  split
  · exact refl
  · split
    · exact refl
    · exact emit refl trivial

theorem cmdRingerMode_aside {args : String} :
    c.Within R E (ModuleId.mayRequest .audio) (m.cmdRingerMode args c).2.1 := by
  unfold cmdRingerMode
  split <;> exact refl

variable [Store.Allows R .notifications]

theorem stopRing_aside : c.Within R E (ModuleId.mayRequest .audio) (m.stopRing p a c).2 := by
  unfold stopRing
  split
  · exact refl
  · dsimp only
    exact write (deliverToHost (deliverToHost refl trivial) trivial) Store.cancelNotification_write

theorem callStart_aside :
    c.Within R (ModuleId.mayEmit .audio) (ModuleId.mayRequest .audio) (m.callStart p a c).2 := by
  unfold callStart
  refine request (emit (write ?_ Store.postNotification_write) trivial) trivial
  exact deliverToHost (.trans stopRing_aside grant_aside) trivial

theorem callEnd_aside :
    c.Within R (ModuleId.mayEmit .audio) (ModuleId.mayRequest .audio) (m.callEnd p a c).2 := by
  unfold callEnd
  refine request (emit (emit (write ?_ Store.cancelNotification_write) trivial) trivial) trivial
  refine .trans (deliverToHost refl ?_) dropPid_aside
  trivial

theorem ringStart_aside :
    c.Within R (ModuleId.mayEmit .audio) (ModuleId.mayRequest .audio) (m.ringStart p a c).2 := by
  have h : c.Within R (ModuleId.mayEmit .audio) (ModuleId.mayRequest .audio)
      (({ m with ringing := some p }.grant p a .gainTransient
        (c.emit (.sensorAcquire .proximity p))).2) := by
    refine .trans (emit refl ?_) grant_aside
    trivial
  unfold ringStart
  refine request (write ?_ Store.postNotification_write) trivial
  split
  · exact deliverToHost (deliverToHost h trivial) trivial
  · exact deliverToHost h trivial
  · exact h

theorem ringStop_aside :
    c.Within R (ModuleId.mayEmit .audio) (ModuleId.mayRequest .audio) (m.ringStop p a c).2 := by
  unfold ringStop
  refine request (.trans (emit stopRing_aside ?_) dropPid_aside) trivial
  trivial

theorem clearBadge_aside {n : Nat} :
    c.Within R E (ModuleId.mayRequest .audio) (clearBadge p n c) := by
  unfold clearBadge
  split
  · exact write refl Store.cancelNotification_write
  · exact refl

theorem onSurfaceRemoved_aside :
    c.Within R E (ModuleId.mayRequest .audio) (m.onSurfaceRemoved p c).2 := by
  unfold onSurfaceRemoved
  by_cases hc : m.comms = some p <;> by_cases hr : m.ringing = some p
  · simp only [hc, hr, if_true]
    exact .trans (.trans clearBadge_aside clearBadge_aside) dropPid_aside
  · simp only [hc, hr, if_true, if_false]
    exact .trans clearBadge_aside dropPid_aside
  · simp only [hc, hr, if_true, if_false]
    exact .trans clearBadge_aside dropPid_aside
  · simp only [hc, hr, if_false]
    exact dropPid_aside

theorem cmdCallStart_aside {args : String} :
    c.Within R (ModuleId.mayEmit .audio) (ModuleId.mayRequest .audio)
      (m.cmdCallStart args c).2.1 := by
  unfold cmdCallStart
  dsimp only
  split
  · exact refl
  · exact callStart_aside

theorem cmdCallEnd_aside {args : String} :
    c.Within R (ModuleId.mayEmit .audio) (ModuleId.mayRequest .audio)
      (m.cmdCallEnd args c).2.1 := by
  unfold cmdCallEnd
  dsimp only
  split
  · exact refl
  · split
    · exact refl
    · exact callEnd_aside

theorem cmdRingStart_aside {args : String} :
    c.Within R (ModuleId.mayEmit .audio) (ModuleId.mayRequest .audio)
      (m.cmdRingStart args c).2.1 := by
  unfold cmdRingStart
  dsimp only
  split
  · exact refl
  · exact ringStart_aside

theorem cmdRingStop_aside {args : String} :
    c.Within R (ModuleId.mayEmit .audio) (ModuleId.mayRequest .audio)
      (m.cmdRingStop args c).2.1 := by
  unfold cmdRingStop
  dsimp only
  split
  · exact refl
  · split
    · exact refl
    · exact ringStop_aside

theorem onCommand_aside (verb : Verb) (args : String) :
    c.Within R (ModuleId.mayEmit .audio) (ModuleId.mayRequest .audio)
      (m.onCommand verb args c).2.1 := by
  cases verb with
  | focusRequest => simpa only [onCommand] using cmdRequest_aside
  | focusAbandon => simpa only [onCommand] using cmdAbandon_aside
  | focusList =>
    simp only [onCommand]
    unfold cmdList
    exact refl
  | callStart => simpa only [onCommand] using cmdCallStart_aside
  | callEnd => simpa only [onCommand] using cmdCallEnd_aside
  | callVideo => simpa only [onCommand] using cmdCallVideo_aside
  | route => simpa only [onCommand] using cmdRoute_aside
  | ringStart => simpa only [onCommand] using cmdRingStart_aside
  | ringStop => simpa only [onCommand] using cmdRingStop_aside
  | ringerMode => simpa only [onCommand] using cmdRingerMode_aside
  | volume => simpa only [onCommand] using cmdVolume_aside
  | mute => simpa only [onCommand] using cmdMute_aside
  | appMute => simpa only [onCommand] using cmdAppMute_aside
  | micMute => simpa only [onCommand] using cmdMicMute_aside
  | appMicMute => simpa only [onCommand] using cmdAppMicMute_aside
  | playTone => simpa only [onCommand] using cmdPlayTone_aside

theorem onEvent_aside (e : Event) :
    c.Within R E (ModuleId.mayRequest .audio) (m.onEvent e c).2 := by
  unfold onEvent
  split
  · exact onSurfaceRemoved_aside
  · exact refl

end AudioModule

/-! ## Sensors -/

namespace SensorsModule

variable {m : SensorsModule} {k : SensorKind} {p : Pid}

omit [Fpu] in
theorem acquire_aside : c.Within R E (ModuleId.mayRequest .sensors) (m.acquire k p c).2 := by
  unfold acquire
  dsimp only
  split
  · exact request refl trivial
  · exact refl

omit [Fpu] in
theorem release_aside : c.Within R E (ModuleId.mayRequest .sensors) (m.release k p c).2 := by
  unfold release
  dsimp only
  split
  · exact request refl trivial
  · exact refl

omit [Fpu] in
theorem releaseAll_aside : c.Within R E (ModuleId.mayRequest .sensors) (m.releaseAll p c).2 := by
  unfold releaseAll
  generalize kinds.filter _ = ks
  induction ks generalizing m c with
  | nil => exact refl
  | cons k ks ih => exact .trans release_aside ih

theorem translateProximity_aside {x : F32} (hE : ∀ near, E (.proximityChanged near)) :
    c.Within R E (ModuleId.mayRequest .sensors) (m.translateProximity x c).2 := by
  unfold translateProximity
  split
  · exact refl
  · dsimp only
    split <;> split
    all_goals first
      | exact emit refl (hE _)
      | exact refl

variable [Store.Allows R .sensors]

theorem onReading_aside {x y z : F32} {ts : Nat} (hE : ∀ near, E (.proximityChanged near)) :
    c.Within R E (ModuleId.mayRequest .sensors) (m.onReading k x y z ts c).2 := by
  unfold onReading
  dsimp only
  split
  · exact .trans (write (p := .sensors) refl ⟨_, rfl⟩) (translateProximity_aside hE)
  · dsimp only
    exact write (p := .sensors) refl ⟨_, rfl⟩

theorem onCommand_aside (verb : Verb) (args : String) :
    c.Within R (ModuleId.mayEmit .sensors) (ModuleId.mayRequest .sensors)
      (m.onCommand verb args c).2.1 := by
  cases verb with
  | reportSensor =>
    simp only [onCommand]
    unfold cmdReportSensor
    split
    · exact refl
    · split
      · exact refl
      · dsimp only
        split
        · exact refl
        · exact emit refl trivial
  | reportSensorDescriptor =>
    simp only [onCommand]
    unfold cmdReportSensorDescriptor
    split
    · split
      · exact refl
      · split
        · exact refl
        · dsimp only
          exact write (p := .sensors) refl ⟨_, rfl⟩
    · exact refl
  | sensorState => exact refl
  | sensorHold =>
    simp only [onCommand]
    unfold cmdSensorHold
    split
    · exact refl
    · split
      · exact refl
      · split
        · exact refl
        · dsimp only
          split
          · exact acquire_aside
          · exact release_aside

/-- Only a reading makes the module emit anything, a near or far. -/
theorem onEvent_aside (e : Event) :
    c.Within R (fun e' => e'.rank < e.rank ∧ ∃ near, e' = .proximityChanged near)
      (ModuleId.mayRequest .sensors) (m.onEvent e c).2 := by
  unfold onEvent
  split
  · exact acquire_aside
  · exact release_aside
  · exact onReading_aside fun near => ⟨Nat.zero_lt_one, near, rfl⟩
  · exact releaseAll_aside
  · exact refl

end SensorsModule

/-! ## Connectivity, topics and media sessions -/

namespace NetModule

variable {m : NetModule}

omit [Fpu]

theorem onCommand_aside (verb : Verb) (args : String) :
    c.Within R E (ModuleId.mayRequest .net) (m.onCommand verb args c).2.1 := by
  cases verb with
  | reportNetState =>
    simp only [onCommand]
    unfold cmdReportNetState
    split
    · exact refl
    · dsimp only
      split
      · exact deliverToAll refl fun _ => trivial
      · exact refl
  | netSubscribe =>
    simp only [onCommand]
    unfold cmdNetSubscribe
    split
    · exact refl
    · exact deliverToAll refl fun _ => trivial
  | _ => exact refl

theorem onEvent_aside (e : Event) : c.Within R E (ModuleId.mayRequest .net) (m.onEvent e c).2 := by
  unfold onEvent
  split <;> exact refl

end NetModule

namespace EventsModule

variable {m : EventsModule}

omit [Fpu]

theorem onCommand_aside (verb : Verb) (args : String) :
    c.Within R E (ModuleId.mayRequest .events) (m.onCommand verb args c).2.1 := by
  cases verb with
  | subscribe =>
    simp only [onCommand]
    unfold cmdSubscribe
    split
    · exact refl
    · dsimp only
      split
      · exact deliverToHost refl trivial
      · exact refl
  | unsubscribe =>
    simp only [onCommand]
    unfold cmdUnsubscribe
    split <;> exact refl
  | publish =>
    simp only [onCommand]
    unfold cmdPublish
    split
    · exact refl
    · split
      · exact refl
      · exact deliverToAll refl fun _ => trivial

theorem onEvent_aside (e : Event) :
    c.Within R E (ModuleId.mayRequest .events) (m.onEvent e c).2 := by
  unfold onEvent
  split <;> exact refl

end EventsModule

namespace MediaSessionModule

variable {m : MediaSessionModule}

theorem onCommand_aside (verb : Verb) (args : String) :
    c.Within R E (ModuleId.mayRequest .mediaSession) (m.onCommand verb args c).2.1 := by
  cases verb with
  | setMetadata =>
    simp only [onCommand]
    unfold cmdSetMetadata
    split
    · split <;> exact refl
    · exact refl
  | setArt =>
    simp only [onCommand]
    unfold cmdSetArt
    split
    · split
      · exact refl
      · split <;> exact refl
    · exact refl
  | setState =>
    simp only [onCommand]
    unfold cmdSetState
    split
    · split
      · exact refl
      · split <;> exact refl
    · exact refl
  | setPosition =>
    simp only [onCommand]
    unfold cmdSetPosition
    split
    · split <;> exact refl
    · exact refl
  | clear =>
    simp only [onCommand]
    unfold cmdClear
    split <;> exact refl
  | nowPlaying =>
    simp only [onCommand]
    unfold cmdNowPlaying
    dsimp only
    split <;> exact refl
  | artwork =>
    simp only [onCommand]
    unfold cmdArtwork
    dsimp only
    split <;> exact refl
  | action =>
    simp only [onCommand]
    unfold cmdAction
    dsimp only
    split
    · exact refl
    · split
      · exact refl
      · exact deliverToHost refl trivial

omit [Fpu] in
theorem onEvent_aside (e : Event) :
    c.Within R E (ModuleId.mayRequest .mediaSession) (m.onEvent e c).2 := by
  unfold onEvent
  split
  · split <;> exact refl
  · exact refl

end MediaSessionModule

/-! ## The shell -/

namespace Shell

variable [Store.Allows R .roles]

omit [Fpu]

theorem apply_within {p : Pid} {r : Role} :
    c.Within R E (ModuleId.mayRequest .shell) (apply c p r) :=
  modifyRoles (request refl trivial) fun d q h => by rwa [DisplayState.isSome_roleOf_setRole] at h

/-- A process may be placed when the relation admits it, or when it has a surface. -/
theorem place_within {p : Pid} {a : String} {r : Role}
    (hp : Store.Admits R p ∨ (c.store.primary.roleOf p).isSome) :
    c.Within R E (ModuleId.mayRequest .shell) (place c p a r) := by
  have h : c.Within R E (ModuleId.mayRequest .shell) (c.request (.setRole p r)) :=
    request refl trivial
  rcases hp with hp | hp
  · exact h.modifyStore (g := fun s => s.modifyDisplay primaryDisplay fun d => d.putSurface p a r)
      (hp _ _ _)
  · refine h.write (p := .roles) ⟨_, rfl, fun q hq => ?_⟩
    rw [DisplayState.roleOf_putSurface] at hq
    split at hq
    · next heq => exact heq ▸ hp
    · exact hq

theorem demoteFromOverlay_within :
    c.Within R E (ModuleId.mayRequest .shell) (demoteFromOverlay c).1 := by
  unfold demoteFromOverlay
  split
  · exact refl
  · dsimp only
    split
    · exact .trans apply_within apply_within
    · exact apply_within

theorem markBehind_within {hint : Option Pid} :
    c.Within R E (ModuleId.mayRequest .shell) (markBehind c hint) := by
  cases hint with
  | none => exact refl
  | some p =>
    exact modifyRoles refl fun d q h => by rwa [DisplayState.isSome_roleOf_setRole] at h

omit [Store.Allows R .roles] [IsPreorder Store R] in
theorem isSome_roleOf_apply {p q : Pid} {r : Role} :
    ((apply c p r).store.primary.roleOf q).isSome = (c.store.primary.roleOf q).isSome := by
  simp [apply, DisplayState.isSome_roleOf_setRole]

omit [Store.Allows R .roles] [IsPreorder Store R] in
theorem isSome_roleOf_markBehind {q : Pid} {hint : Option Pid} :
    ((markBehind c hint).store.primary.roleOf q).isSome = (c.store.primary.roleOf q).isSome := by
  cases hint <;> simp [markBehind, DisplayState.isSome_roleOf_setRole]

theorem promoteToOverlay_within {a : String} {p : Pid} {hint : Option Pid}
    (hp : Store.Admits R p ∨ (c.store.primary.roleOf p).isSome) :
    c.Within R E (ModuleId.mayRequest .shell) (promoteToOverlay c a p hint).1 := by
  have hm : c.Within R E (ModuleId.mayRequest .shell) (place (markBehind c hint) p a .overlay) := by
    refine .trans markBehind_within (place_within ?_)
    rwa [isSome_roleOf_markBehind]
  unfold promoteToOverlay
  cases rolePid c.store .foreground with
  | none => exact hm
  | some x =>
    dsimp only
    split
    · refine .trans apply_within (place_within ?_)
      rwa [isSome_roleOf_apply]
    · exact hm

omit [Store.Allows R .roles] [IsPreorder Store R] in
/-- The input method in charge has a surface. -/
theorem isSome_roleOf_activeIme {s : Store} {x : Pid × String} (h : activeIme s = some x) :
    (s.primary.roleOf x.1).isSome := by
  rw [activeIme_eq] at h
  obtain ⟨f, hf, rfl⟩ := Option.map_eq_some_iff.mp h
  obtain ⟨i, -, hi⟩ := Option.bind_eq_some_iff.mp hf
  have hk : f.pid = i := Table.key_of_get? hi
  rw [DisplayState.roleOf, hk, show s.primary.surfaces.get? i = some f from hi]
  rfl

theorem reconcileOverlay_within :
    c.Within R E (ModuleId.mayRequest .shell) (reconcileOverlay c) := by
  unfold reconcileOverlay
  dsimp only
  split
  · split
    · next himePid => exact promoteToOverlay_within (.inr (isSome_roleOf_activeIme himePid))
    · exact panic refl
  · exact demoteFromOverlay_within
  · exact refl

theorem dropEditorFocusOf_within {p : Pid} (hE : E (.editorFocusChanged p false)) :
    c.Within R E (ModuleId.mayRequest .shell) (dropEditorFocusOf c p) := by
  unfold dropEditorFocusOf
  split
  · exact refl
  · refine emit ?_ hE
    split
    · exact deliverToHost (setEditor refl) trivial
    · exact setEditor refl

theorem attachEditor_within {p : Pid} {o : AppState} {ty hint text : String} :
    c.Within R (ModuleId.mayEmit .shell) (ModuleId.mayRequest .shell)
      (attachEditor c p o ty hint text).1 := by
  unfold attachEditor
  dsimp only
  split
  · split
    · exact emit (emit (deliverToHost (.trans (setEditor refl) reconcileOverlay_within) trivial)
        trivial) trivial
    · exact deliverToHost (.trans (setEditor refl) reconcileOverlay_within) trivial
  · exact .trans (setEditor refl) reconcileOverlay_within

theorem detachEditor_within {p : Pid} :
    c.Within R (ModuleId.mayEmit .shell) (ModuleId.mayRequest .shell)
      (detachEditor c p).1 := by
  unfold detachEditor
  refine emit ?_ trivial
  split
  · exact deliverToHost (.trans (setEditor refl) reconcileOverlay_within) trivial
  · exact .trans (setEditor refl) reconcileOverlay_within

theorem promoteToForeground_within {a : String} {p : Pid} (hp : Store.Admits R p)
    (hE : ∀ q, E (.editorFocusChanged q false)) (hE' : E (.foregroundChanged (some a) (some p))) :
    c.Within R E (ModuleId.mayRequest .shell) (promoteToForeground c a p) := by
  have h : c.Within R E (ModuleId.mayRequest .shell)
      (if overlayEngaged c.store then (demoteFromOverlay c).1 else c) := by
    split
    · exact demoteFromOverlay_within
    · exact refl
  unfold promoteToForeground
  dsimp only
  generalize (if overlayEngaged c.store then (demoteFromOverlay c).1 else c) = c₁ at h ⊢
  refine emit (.trans h (.trans ?_ reconcileOverlay_within)) hE'
  split
  · split
    · exact .trans (.trans apply_within (dropEditorFocusOf_within (hE _)))
        (place_within (.inl hp))
    · exact place_within (.inl hp)
  · exact place_within (.inl hp)

theorem onForegroundChanged_within (hE : ∀ q, E (.editorFocusChanged q false)) :
    c.Within R E (ModuleId.mayRequest .shell) (onForegroundChanged c) := by
  unfold onForegroundChanged
  refine .trans ?_ reconcileOverlay_within
  split
  · split
    · exact dropEditorFocusOf_within (hE _)
    · exact refl
  · exact refl

variable [Store.Allows R .apps]

theorem onSurfaceRemoved_within {p : Pid} :
    c.Within R E (ModuleId.mayRequest .shell) (onSurfaceRemoved c p) := by
  unfold onSurfaceRemoved
  refine modifyRoles ?_ fun _ _ h => DisplayState.isSome_roleOf_removeSurface h
  split <;> split
  · exact write (p := .apps) demoteFromOverlay_within ⟨_, rfl⟩
  · exact write (p := .apps) refl ⟨_, rfl⟩
  · exact demoteFromOverlay_within
  · exact refl

omit [IsPreorder Store R] [Store.Allows R .roles] [Store.Allows R .apps] in
/-- The removal of a surface writes to the display, and takes the app of its process
    from the registry. -/
theorem onSurfaceRemoved_spec (p : Pid) : ∃ s₁ : Store,
    (∀ R [IsPreorder Store R] [Store.Allows R .roles], R c.store s₁) ∧
    (onSurfaceRemoved c p).store = (match c.store.appByPid p with
      | some app => s₁.removeApp app.appId
      | none => s₁).modifyDisplay primaryDisplay fun d => d.removeSurface p := by
  unfold onSurfaceRemoved
  dsimp only
  generalize hc₁ : (if overlayEngaged c.store ∧
    ((rolePid c.store .overlay).map Prod.fst = some p ∨
      (rolePid c.store .overlayBehind).map Prod.fst = some p) then
    (demoteFromOverlay c).1 else c) = c₁
  have hd (R : Store → Store → Prop) [IsPreorder Store R] [Store.Allows R .roles] :
      R c.store c₁.store := by
    subst hc₁
    split
    · exact (demoteFromOverlay_within (E := fun _ => False)).store
    · exact refl_of _ _
  refine ⟨c₁.store, hd, ?_⟩
  have ha : c₁.store.appByPid p = c.store.appByPid p := by
    rw [Store.appByPid, (hd Store.SameApps).apps, Store.appByPid]
  rw [ha]
  cases c.store.appByPid p <;> rfl

theorem onEvent_within (e : Event) :
    c.Within R (fun e' => e'.rank < e.rank ∧ ModuleId.mayEmit .shell e')
      (ModuleId.mayRequest .shell) (onEvent e c) := by
  unfold onEvent
  split
  · exact onSurfaceRemoved_within
  · exact onForegroundChanged_within fun _ => ⟨Nat.zero_lt_one, trivial⟩
  · exact refl

theorem killApp_within {a : String} {s : AppState} :
    c.Within R E (ModuleId.mayRequest .shell) (killApp c a s).1 := by
  unfold killApp
  dsimp only
  exact modifyRoles (write (p := .apps) (request refl trivial) ⟨_, rfl⟩)
    fun _ _ h => DisplayState.isSome_roleOf_removeSurface h

omit [IsPreorder Store R] [Store.Allows R .roles] [Store.Allows R .apps] in
/-- The next task is an app that is running. -/
theorem nextTask_mem {s : Store} {app : AppState} (h : nextTask s = some app) :
    app ∈ s.apps.rows := by
  have hm : app ∈ switchable s := List.mem_of_getElem? h
  rw [switchable, sortByAppId, List.mem_insertionSort] at hm
  exact (List.mem_filter.mp hm).1

omit [Store.Allows R .apps] in
/-- A command of the shell that registers or kills no app. -/
theorem onCommand_sameApps [Fpu] [Store.Allows R .imeHeight] {clock : Clock} {verb : Verb}
    {args : String} (hp : ∀ app ∈ c.store.apps.rows, Store.Admits R app.pid) (hk : verb ≠ .kill)
    (ht : verb ≠ .taskKill) (hr : verb ≠ .registerChrome) :
    c.Within R (ModuleId.mayEmit .shell) (ModuleId.mayRequest .shell)
      (onCommand clock verb args c).1 := by
  cases verb with
  | kill => exact absurd rfl hk
  | taskKill => exact absurd rfl ht
  | registerChrome => exact absurd rfl hr
  | foreground =>
    simp only [onCommand]
    unfold cmdForeground
    split
    · exact refl
    · split
      · exact refl
      · next st hst =>
        exact promoteToForeground_within (hp st (Table.mem_of_get? hst)) (fun _ => trivial) trivial
  | setIme =>
    simp only [onCommand]
    unfold cmdSetIme
    split
    · exact refl
    · dsimp only
      split
      · exact setIme refl
      · split
        · exact refl
        · exact setIme refl
  | attachEditor =>
    simp only [onCommand]
    unfold cmdAttachEditor
    split
    · exact refl
    · split
      · exact refl
      · split
        · exact refl
        · exact attachEditor_within
  | detachEditor =>
    simp only [onCommand]
    unfold cmdDetachEditor
    dsimp only
    split
    · exact refl
    · split
      · exact refl
      · split
        · exact refl
        · exact detachEditor_within
  | imeOverlayHeight =>
    simp only [onCommand]
    unfold cmdImeOverlayHeight
    split
    · exact refl
    · dsimp only
      exact emit (write (p := .imeHeight) refl ⟨_, rfl⟩) trivial
  | ime route =>
    simp only [onCommand]
    unfold cmdImeRoute
    split
    · exact refl
    · split
      · split
        · exact deliverToHost refl trivial
        · exact refl
      · exact refl
  | back =>
    simp only [onCommand]
    unfold cmdBack
    split
    · refine .trans ?_ reconcileOverlay_within
      split
      · exact dropEditorFocusOf_within trivial
      · exact refl
    · split
      · exact refl
      · exact deliverToHost (deliverToHost refl trivial) trivial
  | cycleTask =>
    simp only [onCommand]
    unfold cmdCycleTask
    dsimp only
    split
    · exact refl
    · split
      · exact panic refl
      · next app happ =>
        exact promoteToForeground_within (hp app (nextTask_mem happ)) (fun _ => trivial) trivial
  | overlay =>
    simp only [onCommand]
    unfold cmdOverlay
    split
    · exact refl
    · split
      · exact refl
      · next st hst => exact promoteToOverlay_within (.inl (hp st (Table.mem_of_get? hst)))
  | overlayClear =>
    simp only [onCommand]
    unfold cmdOverlayClear
    have h := demoteFromOverlay_within (R := R) (c := c) (E := ModuleId.mayEmit .shell)
    split
    · next heq => simpa [heq] using h
    · next heq => simpa [heq] using h
  | list =>
    simp only [onCommand]
    unfold cmdList
    exact refl
  | taskList =>
    simp only [onCommand]
    unfold cmdTaskList
    exact refl

omit [Store.Allows R .roles] in
theorem onCommand_within [Fpu] [Store.Allows R .display] [Store.Allows R .imeHeight] {clock : Clock}
    {verb : Verb} {args : String} :
    c.Within R (ModuleId.mayEmit .shell) (ModuleId.mayRequest .shell)
      (onCommand clock verb args c).1 := by
  by_cases h : verb ≠ .kill ∧ verb ≠ .taskKill ∧ verb ≠ .registerChrome
  · exact onCommand_sameApps (fun _ _ => .of_display) h.1 h.2.1 h.2.2
  · cases verb with
    | kill =>
      simp only [onCommand]
      unfold cmdKill
      split
      · exact refl
      · split
        · exact refl
        · exact killApp_within
    | taskKill =>
      simp only [onCommand]
      unfold cmdTaskKill
      split
      · exact refl
      · split
        · exact refl
        · split
          · exact refl
          · exact killApp_within
    | registerChrome =>
      simp only [onCommand]
      unfold cmdRegisterChrome
      split
      · split
        · exact refl
        · dsimp only
          split
          · exact modifyPrimary (modifyPrimary (write (p := .apps) refl ⟨_, rfl⟩))
          · exact modifyPrimary (write (p := .apps) refl ⟨_, rfl⟩)
      · exact refl
    | _ => simp at h

end Shell

/-! ## The keyguard -/

namespace KeyguardModule

variable {m : KeyguardModule} {p : Pid} {a : String} {r : Role}

omit [Fpu]

theorem unsuppress_within {o : Option Pid} :
    c.Within R E (ModuleId.mayRequest .keyguard) (unsuppress c o) := by
  cases o with
  | none => exact refl
  | some p => exact deliverToHost refl trivial

theorem refocus_within {o : Option String} :
    c.Within R E (ModuleId.mayRequest .keyguard) (refocus c o) := by
  cases o with
  | none => exact refl
  | some a => exact request refl trivial

variable [Store.Allows R .roles]

theorem setRole_within :
    c.Within R E (ModuleId.mayRequest .keyguard) (setRole c p r) :=
  modifyRoles (request refl trivial) fun d q h => by rwa [DisplayState.isSome_roleOf_setRole] at h

omit [Store.Allows R .roles] in
theorem showLockscreen_within (hp : Store.Admits R p) :
    c.Within R E (ModuleId.mayRequest .keyguard) (showLockscreen c p a) := by
  have h : c.Within R E (ModuleId.mayRequest .keyguard) (c.request (.setRole p .lockscreen)) :=
    request refl trivial
  exact h.modifyStore (g := fun s => s.modifyDisplay primaryDisplay fun d =>
    d.putSurface p a .lockscreen) (hp _ _ _)

theorem coverVisible_within :
    c.Within R E (ModuleId.mayRequest .keyguard) (coverVisible c) := by
  unfold coverVisible
  split
  · exact deliverToHost setRole_within trivial
  · exact refl

omit [Store.Allows R .roles] in
/-- The two events of an overlay that was raised. -/
theorem raised_within {c' : Ctx} (h : c.Within R E (ModuleId.mayRequest .keyguard) c')
    (hp : Store.Admits R p) (hf : E (.foregroundChanged (some a) (some p)))
    (ho : ∀ i o, E (.orientationChanged i o)) :
    c.Within R E (ModuleId.mayRequest .keyguard)
      (refanOrientation ((showLockscreen c' p a).emit (.foregroundChanged (some a) (some p)))) :=
  emit (emit (.trans h (showLockscreen_within hp)) hf) (ho _ _)

omit [IsPreorder Store R] [Store.Allows R .roles] in
/-- A guest whose process is known is an app that is running. -/
theorem admits_guest {s : Store} (hp : ∀ app ∈ s.apps.rows, Store.Admits R app.pid)
    (h : (s.app a).map AppState.pid = some p) : Store.Admits R p := by
  obtain ⟨app, happ, rfl⟩ := Option.map_eq_some_iff.mp h
  exact hp app (Table.mem_of_get? happ)

section

variable (hp : ∀ app ∈ c.store.apps.rows, Store.Admits R app.pid)

include hp

theorem doLock_within (hf : ∀ a p, E (.foregroundChanged a p))
    (ho : ∀ i o, E (.orientationChanged i o)) :
    c.Within R E (ModuleId.mayRequest .keyguard) (m.doLock c).2.1 := by
  unfold doLock
  split
  · exact refl
  · split
    · exact refl
    · next hk => exact raised_within coverVisible_within (admits_guest hp hk) (hf _ _) ho

theorem doShowMenu_within (hf : ∀ a p, E (.foregroundChanged a p))
    (ho : ∀ i o, E (.orientationChanged i o)) :
    c.Within R E (ModuleId.mayRequest .keyguard) (m.doShowMenu c).2.1 := by
  unfold doShowMenu
  split
  · exact refl
  · split
    · exact refl
    · next hk =>
      dsimp only
      split
      · exact raised_within (.trans coverVisible_within setRole_within) (admits_guest hp hk)
          (hf _ _) ho
      · exact raised_within coverVisible_within (admits_guest hp hk) (hf _ _) ho

omit hp in
theorem lower_within {o : Option Pid} :
    c.Within R E (ModuleId.mayRequest .keyguard) (lower c o) := by
  cases o with
  | none => exact refl
  | some p => exact setRole_within

omit hp [IsPreorder Store R] [Store.Allows R .roles] in
theorem apps_lower {o : Option Pid} : (lower c o).store.apps = c.store.apps := by
  cases o <;> rfl

omit hp [IsPreorder Store R] [Store.Allows R .roles] in
theorem store_unsuppress {o : Option Pid} : (unsuppress c o).store = c.store := by
  cases o <;> rfl

omit [Store.Allows R .roles] in
theorem restoreFromMenu_within (ho : ∀ i o, E (.orientationChanged i o)) :
    c.Within R E (ModuleId.mayRequest .keyguard) (m.restoreFromMenu c).2 := by
  unfold restoreFromMenu
  refine emit (.trans ?_ refocus_within) (ho _ _)
  cases hk : (if m.menuCoveredKeyguard then keyguardPid (unsuppress c m.menuSuppressedPid).store
    else none) with
  | some kg =>
    have hkg : keyguardPid c.store = some kg := by
      split at hk
      · rwa [store_unsuppress] at hk
      · cases hk
    exact .trans unsuppress_within (showLockscreen_within (admits_guest hp hkg))
  | none => exact unsuppress_within

theorem doHideMenu_within (ho : ∀ i o, E (.orientationChanged i o)) :
    c.Within R E (ModuleId.mayRequest .keyguard) (m.doHideMenu c).2.1 := by
  unfold doHideMenu
  split
  · refine .trans lower_within (restoreFromMenu_within ?_ ho)
    rwa [apps_lower]
  · exact lower_within

omit hp in
theorem doUnlock_within (ho : ∀ i o, E (.orientationChanged i o)) :
    c.Within R E (ModuleId.mayRequest .keyguard) (m.doUnlock c).2.1 := by
  unfold doUnlock
  split
  · exact refl
  · exact emit (.trans (.trans lower_within unsuppress_within) refocus_within) (ho _ _)

theorem onCommand_within {verb : Verb} :
    c.Within R (ModuleId.mayEmit .keyguard) (ModuleId.mayRequest .keyguard)
      (m.onCommand verb c).2.1 := by
  cases verb with
  | lock => exact doLock_within hp (fun _ _ => trivial) fun _ _ => trivial
  | unlock => exact doUnlock_within fun _ _ => trivial
  | powerMenu => exact doShowMenu_within hp (fun _ _ => trivial) fun _ _ => trivial
  | pmDismiss => exact doHideMenu_within hp fun _ _ => trivial

theorem onEvent_within (e : Event) :
    c.Within R (fun e' => e'.rank < e.rank ∧ ModuleId.mayEmit .keyguard e')
      (ModuleId.mayRequest .keyguard) (m.onEvent e c).2 := by
  unfold onEvent
  split
  · exact doLock_within hp (fun _ _ => ⟨Nat.one_lt_two, trivial⟩)
      fun _ _ => ⟨Nat.zero_lt_two, trivial⟩
  · exact refl
  · exact refl

end

end KeyguardModule

end

/-! ## The modules that work aside -/

namespace Modules

variable {clock : Clock} {m : Modules}

section

variable (R : Store → Store → Prop) [IsPreorder Store R]

/-- A command emits the events and requests the effects of its module, and writes
    the parts of the store of its module only. -/
theorem onCommand_frame {verb : Verb} {args : String}
    (hR : ∀ p ∈ verb.owner.parts, Store.Allows R p) :
    c.Within R verb.owner.mayEmit verb.owner.mayRequest (m.onCommand clock verb args c).2.1 := by
  cases verb with
  | wm v =>
    have := hR .geometry (by simp [Verb.owner, ModuleId.parts])
    exact Wm.onCommand_aside v args
  | shell v =>
    have := hR .display (by simp [Verb.owner, ModuleId.parts])
    have := hR .apps (by simp [Verb.owner, ModuleId.parts])
    have := hR .imeHeight (by simp [Verb.owner, ModuleId.parts])
    exact Shell.onCommand_within
  | alarm v =>
    have := hR .alarms (by simp [Verb.owner, ModuleId.parts])
    exact AlarmManager.onCommand_aside v args
  | notify v =>
    have := hR .notifications (by simp [Verb.owner, ModuleId.parts])
    exact Notify.onCommand_aside v args
  | power v => exact PowerModule.onCommand_within (fun _ => trivial) v args
  | keyguard v =>
    have := hR .display (by simp [Verb.owner, ModuleId.parts])
    exact KeyguardModule.onCommand_within fun _ _ => .of_display
  | audio v =>
    have := hR .notifications (by simp [Verb.owner, ModuleId.parts])
    exact AudioModule.onCommand_aside v args
  | sensors v =>
    have := hR .sensors (by simp [Verb.owner, ModuleId.parts])
    exact SensorsModule.onCommand_aside v args
  | net v => exact NetModule.onCommand_aside v args
  | events v => exact EventsModule.onCommand_aside v args
  | mediaSession v => exact MediaSessionModule.onCommand_aside v args

/-- A reaction emits events of its module ranking below the one reacted to, requests
    the effects of its module, and writes the parts of the store of its module only. -/
theorem onEvent_frame {id : ModuleId} {e : Event} (hR : ∀ p ∈ id.parts, Store.Allows R p) :
    c.Within R (fun e' => e'.rank < e.rank ∧ id.mayEmit e') id.mayRequest
      (m.onEvent clock id e c).2 := by
  cases id with
  | wm =>
    have := hR .geometry (by simp [ModuleId.parts])
    exact Wm.onEvent_aside e
  | shell =>
    have := hR .display (by simp [ModuleId.parts])
    have := hR .apps (by simp [ModuleId.parts])
    exact Shell.onEvent_within e
  | alarm =>
    have := hR .alarms (by simp [ModuleId.parts])
    exact AlarmManager.onEvent_aside e
  | notify => exact .refl
  | power => exact PowerModule.onEvent_within e
  | keyguard =>
    have := hR .display (by simp [ModuleId.parts])
    exact KeyguardModule.onEvent_within (fun _ _ => .of_display) e
  | audio =>
    have := hR .notifications (by simp [ModuleId.parts])
    exact AudioModule.onEvent_aside e
  | sensors =>
    have := hR .sensors (by simp [ModuleId.parts])
    refine (SensorsModule.onEvent_aside e).mono (fun _ _ h => h) (fun e' h => ⟨h.1, ?_⟩)
      fun _ h => h
    obtain ⟨near, rfl⟩ := h.2
    exact trivial
  | net => exact NetModule.onEvent_aside e
  | events => exact EventsModule.onEvent_aside e
  | mediaSession => exact MediaSessionModule.onEvent_aside e

end

omit [Fpu] in
/-- The modules working aside write nothing that is shown. -/
theorem allows_agree {id : ModuleId} (h : id.isAside) :
    ∀ p ∈ id.parts, Store.Allows Store.Agree p := by
  intro p hp
  cases id <;> simp [ModuleId.parts, ModuleId.isAside] at h hp <;> subst hp <;> infer_instance

/-- A command of a module working aside. -/
theorem onCommand_aside {verb : Verb} {args : String} (h : verb.owner.isAside) :
    c.Aside verb.owner.mayEmit verb.owner.mayRequest (m.onCommand clock verb args c).2.1 :=
  onCommand_frame _ (allows_agree h)

/-- The reaction of a module working aside. -/
theorem onEvent_aside {id : ModuleId} {e : Event} (h : id.isAside) :
    c.Aside (fun e' => e'.rank < e.rank ∧ id.mayEmit e') id.mayRequest
      (m.onEvent clock id e c).2 :=
  onEvent_frame _ (allows_agree h)

/-- A command emits the events and requests the effects of its module. -/
theorem onCommand_within {verb : Verb} {args : String} :
    c.Within Store.Anyhow verb.owner.mayEmit verb.owner.mayRequest
      (m.onCommand clock verb args c).2.1 :=
  onCommand_frame _ fun _ _ => inferInstance

/-- A reaction emits events of its module ranking below the one reacted to, and
    requests the effects of its module. -/
theorem onEvent_within {id : ModuleId} {e : Event} :
    c.Within Store.Anyhow (fun e' => e'.rank < e.rank ∧ id.mayEmit e') id.mayRequest
      (m.onEvent clock id e c).2 :=
  onEvent_frame _ fun _ _ => inferInstance

end Modules

/-! ## Cascades -/

namespace Arbiter

variable {reg : Registry} {clock : Clock}

theorem handler_within {id : ModuleId} {e : Event} {a : Arbiter} :
    Ctx.Within Store.Anyhow (fun e' => e'.rank < e.rank ∧ id.mayEmit e') id.mayRequest
      { store := a.store } (a.mods.onEvent clock id e { store := a.store }).2 :=
  Modules.onEvent_within

theorem handler_emits {id : ModuleId} {e : Event} {a : Arbiter} :
    ∀ e' ∈ (handler clock id e a).events, e'.rank < e.rank ∧ id.mayEmit e' :=
  handler_within.forall_events rfl

theorem handler_requests {id : ModuleId} {e : Event} {a : Arbiter} :
    ∀ f ∈ (handler clock id e a).effects, id.mayRequest f :=
  handler_within.forall_effects rfl

theorem handler_ranked (id : ModuleId) : Bus.Ranked Event.rank (handler clock id) :=
  fun _ _ e' he' => (handler_emits e' he').1

theorem handlers_ranked : ∀ h ∈ handlers reg clock, Bus.Ranked Event.rank h := by
  simpa [handlers] using fun id _ => handler_ranked id

omit [Fpu] in
theorem rank_lt_maxCascadeDepth (e : Event) : e.rank < maxCascadeDepth := by
  cases e <;> simp [Event.rank, maxCascadeDepth]

/-- The cascade that `o` starts empties its queue in `k` rounds: the loop ends
    then with nothing pending, and every event pending at any time was fanned out
    to every handler. -/
structure Empties (reg : Registry) (clock : Clock) (o : Bus.Out Arbiter Event Effect) (k : Nat) :
    Prop where
  pending : (Bus.turns (handlers reg clock) k o).events = []
  drain : drainCascade reg clock o =
    ((Bus.turns (handlers reg clock) k o).state, (Bus.turns (handlers reg clock) k o).effects)
  delivered : ∀ i, ∀ e ∈ (Bus.turns (handlers reg clock) i o).events,
    e ∈ Bus.delivered (handlers reg clock) k o

/-- An event starts at most four rounds: an idle panel goes to sleep, the device
    locks when the screen goes off, and the app covered loses the editor. -/
theorem empties_four (o : Bus.Out Arbiter Event Effect) : Empties reg clock o 4 := by
  have hp : (Bus.turns (handlers reg clock) 4 o).events = [] :=
    Bus.Ranked.turns handlers_ranked fun e _ => by cases e <;> simp [Event.rank]
  refine ⟨hp, ?_, fun i e he => Bus.mem_delivered hp he⟩
  rw [drainCascade, Bus.drain_eq_turns (by simp [maxCascadeDepth]) hp]

/-- In every state of the arbiter, the cascade of every command and of every
    event from outside empties its queue before the bound on its rounds. -/
theorem cascade_empties (clock : Clock) (a : Arbiter) :
    (∀ verb args, ∃ k < maxCascadeDepth,
      Empties buildRegistry clock (a.handle clock verb args).1 k) ∧
    ∀ e, ∃ k < maxCascadeDepth, Empties buildRegistry clock ⟨a, [e], []⟩ k :=
  ⟨fun _ _ => ⟨4, by simp [maxCascadeDepth], empties_four _⟩,
    fun _ => ⟨4, by simp [maxCascadeDepth], empties_four _⟩⟩

end Arbiter

end Wandr
