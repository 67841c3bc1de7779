import Wandr.Arbiter.StateFile

/-!
# What a restart reads back

* `Store.restore_toJson`: where no text of the state misleads the search for keys and
  delimiters, and the numbers of the alarms fit a signed integer, the state is read back
  as it was, less the apps whose processes are dead;
* `Store.alarm_forgotten` is a state that is not read back.
-/

namespace Wandr

open Text

/-! ## The body -/

/-- An optional text among the fields. -/
def topFields : Option String → List (List Char)
  | some v => [[':', ' '], v.toList, ",\n  ".toList]
  | none => [": null,\n  ".toList]

/-- What precedes the arrays. -/
def preamble (now : Nat) (fg home : Option String) : List (List Char) :=
  ["version".toList, ": 1,\n  ".toList, "saved_at_unix".toList, numberJson now ",\n  ".toList,
    "foreground".toList] ++ (topFields fg ++ "home".toList :: topFields home)

/-- The arrays. -/
def arraysJson (s : Store) : List Char :=
  objectsJson (s.appsSnapshot.map appJson) ++ ("],\n  \"alarms\": [".toList ++
    (objectsJson (s.alarms.rows.map alarmJson) ++ "]\n\x7d\n".toList))

/-- An optional text at the top level, before another field. -/
theorem topJson_append {key : String} {o : Option String} {ps : List (List Char)} (hps : ps ≠ [])
    (ho : ∀ v ∈ o, Unescaped v) : topJson key o ++ ("  \"".toList ++ joinChar '"' ps) =
      "  \"".toList ++ joinChar '"' (key.toList :: (topFields o ++ ps)) := by
  rcases o with _ | v
  · have hj : joinChar '"' (key.toList :: (topFields none ++ ps)) =
        key.toList ++ '"' :: (": null,\n  ".toList ++ '"' :: joinChar '"' ps) := by
      rw [topFields, List.singleton_append, joinChar, joinChar_cons hps]
    rw [hj, topJson]
    simp
  · have hj : joinChar '"' (key.toList :: (topFields (some v) ++ ps)) = key.toList ++ '"' ::
        ([':', ' '] ++ '"' :: (v.toList ++ '"' :: (",\n  ".toList ++ '"' :: joinChar '"' ps))) := by
      rw [topFields, List.cons_append, List.cons_append, List.singleton_append, joinChar, joinChar,
        joinChar, joinChar_cons hps]
    rw [hj, topJson, jsonEscape_eq (ho v rfl)]
    simp

theorem Store.toJson_eq {s : Store} {now : Nat} {fg : Option String}
    (hfg : ∀ f ∈ fg, Unescaped f) (hhome : ∀ h ∈ s.home, Unescaped h) : s.toJson now fg =
      joinChar '"' ("\x7b\n  ".toList :: (preamble now fg s.home ++ "apps".toList ::
        ([':', ' '] ++ '[' :: arraysJson s) :: [])) := by
  have ht : toString (now : Int) = toString now := rfl
  have hl : s.toJson now fg = "\x7b\n  \"version\": 1,\n  \"saved_at_unix\": ".toList ++
      ((toString now).toList ++ (",\n".toList ++ (topJson "foreground" fg ++
        (topJson "home" s.home ++ ("  \"".toList ++ joinChar '"' ["apps".toList,
          [':', ' '] ++ '[' :: arraysJson s]))))) := by
    delta Store.toJson
    simp [arraysJson, joinChar]
  rw [hl, topJson_append (by simp) hhome, topJson_append (by simp) hfg, preamble]
  simp [joinChar, numberJson, ht]

/-- An optional text is read back. -/
theorem parseTopString_joinChar {key : String} {o : Option String} {p : List Char}
    {pre post ps : List (List Char)} (hk : '"' ∉ key.toList) (hc : ':' ∉ key.toList)
    (h : ∀ r ∈ p :: pre, '"' ∉ r) (hn : key.toList ∉ pre) (hpost : ∀ r ∈ post, ':' ∉ r)
    (ho : ∀ v ∈ o, Unescaped v) :
    parseTopString (joinChar '"' (p :: (pre ++ key.toList :: (post ++ (topFields o ++ ps))))) key =
      o := by
  rw [parseTopString_eq hc]
  rcases o with _ | v
  · have hkey : (afterFirst (needle key) (joinChar '"' (p :: (pre ++ key.toList ::
        (post ++ (topFields none ++ ps)))))).bind (afterFirst [':']) =
        some (joinChar '"' (" null,\n  ".toList :: ps)) :=
      afterFirst_key hk h hn (by decide) hpost (by simp : ':' ∉ [])
    have hj : joinChar '"' (" null,\n  ".toList :: ps) =
        ' ' :: ("null".toList ++ joinChar '"' (",\n  ".toList :: ps)) :=
      joinChar_append_cons (p := " null".toList)
    rw [hkey, Option.bind_some, hj, dropWhile_isWhitespace (by rintro c ⟨⟩; rfl)]
    rfl
  · have hkey : (afterFirst (needle key) (joinChar '"' (p :: (pre ++ key.toList ::
        (post ++ (topFields (some v) ++ ps)))))).bind (afterFirst [':']) =
        some (joinChar '"' ([' '] :: v.toList :: ",\n  ".toList :: ps)) :=
      afterFirst_key hk h hn (by decide) hpost (by simp : ':' ∉ [])
    rw [hkey, Option.bind_some, joinChar, joinChar, List.singleton_append]
    rw [dropWhile_isWhitespace (by rintro c ⟨⟩; rfl)]
    have hv : quotedText ('"' :: (v.toList ++ '"' :: joinChar '"' (",\n  ".toList :: ps))) =
        some (String.ofList v.toList) := quotedText_append (ho v rfl).1
    rwa [String.ofList_toList] at hv

/-! ## The preamble -/

section

variable {now : Nat} {fg home : Option String}

theorem quote_notMem_topFields {o : Option String} (ho : ∀ v ∈ o, Unescaped v) :
    ∀ r ∈ topFields o, '"' ∉ r := by
  rcases o with _ | v
  · simp [topFields]
  · simp [topFields, (ho v rfl).1]

theorem quote_notMem_preamble (hfg : ∀ f ∈ fg, Unescaped f) (hhome : ∀ h ∈ home, Unescaped h) :
    ∀ r ∈ "\x7b\n  ".toList :: preamble now fg home, '"' ∉ r := by
  have hnow : '"' ∉ numberJson now ",\n  ".toList :=
    notMem_numberJson rfl (by simp) (by simp) (by simp)
  rw [List.forall_mem_cons]
  refine ⟨by simp, ?_⟩
  rw [preamble, List.forall_mem_append, List.forall_mem_append]
  refine ⟨by simpa using hnow, quote_notMem_topFields hfg, List.forall_mem_cons.mpr ⟨?_, ?_⟩⟩
  · simp
  · exact quote_notMem_topFields hhome

theorem notMem_topFields {o : Option String} {key : String} (hc : ':' ∉ key.toList)
    (hm : ',' ∉ key.toList) (ho : o ≠ some key) : key.toList ∉ topFields o := by
  have hne {cs : List Char} {c : Char} (hmem : c ∈ cs) (h : c ∉ key.toList) : key.toList ≠ cs :=
    fun hk => h (hk ▸ hmem)
  rcases o with _ | v
  · rw [topFields, List.mem_singleton]
    exact hne (c := ':') (by simp) hc
  · rw [topFields, List.mem_cons, List.mem_cons, List.mem_singleton]
    rintro (h | h | h)
    · exact hne (c := ':') (by simp) hc h
    · exact ho (congrArg some (String.toList_inj.mp h).symm)
    · exact hne (c := ',') (by simp) hm h

theorem parseTopString_foreground {ps : List (List Char)} (hfg : ∀ f ∈ fg, Unescaped f) :
    parseTopString (joinChar '"' ("\x7b\n  ".toList :: (preamble now fg home ++ ps)))
      "foreground" = fg := by
  have hnow : '"' ∉ numberJson now ",\n  ".toList :=
    notMem_numberJson rfl (by simp) (by simp) (by simp)
  have hl : preamble now fg home ++ ps = ["version".toList, ": 1,\n  ".toList,
      "saved_at_unix".toList, numberJson now ",\n  ".toList] ++ "foreground".toList ::
        ([] ++ (topFields fg ++ ("home".toList :: topFields home ++ ps))) := by
    simp [preamble]
  rw [hl]
  exact parseTopString_joinChar (by simp) (by simp) (by simpa using hnow) (by simp [numberJson])
    (by simp) hfg

/-- The home is found, even if the app in the foreground is called like the key. -/
theorem parseTopString_home {ps : List (List Char)} (hfg : ∀ f ∈ fg, Unescaped f)
    (hhome : ∀ h ∈ home, Unescaped h) :
    parseTopString (joinChar '"' ("\x7b\n  ".toList :: (preamble now fg home ++ ps)))
      "home" = home := by
  have hnow : '"' ∉ numberJson now ",\n  ".toList :=
    notMem_numberJson rfl (by simp) (by simp) (by simp)
  by_cases hf : fg = some "home"
  · have hl : preamble now fg home ++ ps = ["version".toList, ": 1,\n  ".toList,
        "saved_at_unix".toList, numberJson now ",\n  ".toList, "foreground".toList, [':', ' ']] ++
        "home".toList :: ([",\n  ".toList, "home".toList] ++ (topFields home ++ ps)) := by
      simp [preamble, topFields, hf]
    rw [hl]
    exact parseTopString_joinChar (by simp) (by simp) (by simpa using hnow) (by simp [numberJson])
      (by simp) hhome
  · have hl : preamble now fg home ++ ps = (["version".toList, ": 1,\n  ".toList,
        "saved_at_unix".toList, numberJson now ",\n  ".toList, "foreground".toList] ++
        topFields fg) ++ "home".toList :: ([] ++ (topFields home ++ ps)) := by
      simp [preamble]
    have hn : "home".toList ∉ topFields fg := notMem_topFields (by simp) (by simp) hf
    have hpre : ∀ r ∈ "\x7b\n  ".toList :: preamble now fg home, '"' ∉ r :=
      quote_notMem_preamble hfg hhome
    have hq : ∀ r ∈ "\x7b\n  ".toList :: (["version".toList, ": 1,\n  ".toList,
        "saved_at_unix".toList, numberJson now ",\n  ".toList, "foreground".toList] ++
        topFields fg), '"' ∉ r := by
      intro r hr
      refine hpre r ?_
      rw [preamble, ← List.append_assoc]
      rcases List.mem_cons.mp hr with rfl | hr
      · exact List.mem_cons_self
      · exact List.mem_cons_of_mem _ (List.mem_append_left _ hr)
    rw [hl]
    refine parseTopString_joinChar (by simp) (by simp) hq ?_ (by simp) hhome
    rw [List.mem_append]
    rintro (h | h)
    · simp [numberJson] at h
    · exact hn h

/-- Pieces none of which is the key do not matter to what follows the key. -/
theorem Unopened.append {key : String} {l r : List (List Char)} (hl : key.toList ∉ l)
    (hr : Unopened key r) : Unopened key (l ++ r) := by
  have hne : ∀ a ∈ l, a ≠ key.toList := fun a ha h => hl (h ▸ ha)
  refine List.pairwise_append.mpr ⟨?_, hr, fun a ha b _ h => absurd h (hne a ha)⟩
  exact List.Pairwise.imp_of_mem (fun ha _ _ h => absurd h (hne _ ha))
    (List.pairwise_of_forall fun _ _ => trivial : l.Pairwise fun _ _ => True)

theorem Unopened.topFields {key : String} {o : Option String} {r : List (List Char)}
    (hc : ':' ∉ key.toList) (hm : ',' ∉ key.toList) (ho : o = some key → ∀ b ∈ r, '[' ∉ b)
    (hr : Unopened key r) : Unopened key (topFields o ++ r) := by
  by_cases h : o = some key
  · subst h
    have hcolon : [':', ' '] ≠ key.toList := fun h => hc (h ▸ List.mem_cons_self)
    have hcomma : ",\n  ".toList ≠ key.toList := fun h => hm (h ▸ List.mem_cons_self)
    have hb : ∀ b ∈ ",\n  ".toList :: r, '[' ∉ b :=
      List.forall_mem_cons.mpr ⟨by simp, ho rfl⟩
    refine .cons (fun _ _ h => absurd h hcolon) (.cons (fun b hb' _ => hb b hb') ?_)
    exact .cons (fun _ _ h => absurd h hcomma) hr
  · exact hr.append (notMem_topFields hc hm h)

theorem bracket_notMem_topFields {o : Option String} (ho : ∀ v ∈ o, '[' ∉ v.toList) :
    ∀ r ∈ topFields o, '[' ∉ r := by
  rcases o with _ | v
  · simp [topFields]
  · simpa [topFields] using ho v rfl

/-- No array is opened between what is called like the apps and their array. -/
theorem unopened_preamble (ho : fg = some "apps" → ∀ h ∈ home, '[' ∉ h.toList) :
    Unopened "apps" (preamble now fg home) := by
  have hhome : Unopened "apps" (topFields home ++ []) :=
    .topFields (by simp) (by simp) (by simp) .nil
  rw [List.append_nil] at hhome
  refine .append (by simp [numberJson]) (.topFields (by simp) (by simp) (fun hf => ?_) ?_)
  · exact List.forall_mem_cons.mpr ⟨by simp, bracket_notMem_topFields (ho hf)⟩
  · exact .append (l := ["home".toList]) (by simp) hhome

theorem alarms_notMem_preamble (hfg : fg ≠ some "alarms") (hhome : home ≠ some "alarms") :
    "alarms".toList ∉ preamble now fg home := by
  have hf : "alarms".toList ∉ topFields fg := notMem_topFields (by simp) (by simp) hfg
  have hh : "alarms".toList ∉ topFields home := notMem_topFields (by simp) (by simp) hhome
  intro h
  rcases List.mem_append.mp h with h | h
  · simp [numberJson] at h
  rcases List.mem_append.mp h with h | h
  · exact hf h
  rcases List.mem_cons.mp h with h | h
  · simp at h
  · exact hh h

end

/-! ## The arrays in the body -/

/-- What separates an app from what follows it. -/
def glue (as : List AppState) : List Char :=
  if as.isEmpty then "\n  ],\n  ".toList else ", \n    \x7b".toList

/-- What opens the array of the apps. -/
def opening (as : List AppState) : List Char :=
  if as.isEmpty then ": [],\n  ".toList else ": [\n    \x7b".toList

/-- The pieces of an app, with what comes after it. -/
def appPieces (a : AppState) (t : List Char) : List (List Char) :=
  ["app_id".toList, [':', ' '], a.appId.toList, [',', ' '], "pid".toList,
    numberJson a.pid [',', ' '], "launched_at_unix".toList, numberJson a.launchedAt ('\x7d' :: t)]

/-- The pieces of the apps. -/
def appsPieces : List AppState → List (List Char)
  | [] => []
  | a :: as => appPieces a (glue as) ++ appsPieces as

theorem joinChar_appPieces {a : AppState} {t : List Char} :
    "\n    \x7b\"".toList ++ joinChar '"' (appPieces a t) = objectJson (appFields a) ++ t := by
  simp [appPieces, objectJson, appFields, fieldsJson, numberJson, joinChar]

theorem joinChar_appsPieces {a : AppState} {as : List AppState} {r : List Char} :
    "\n    \x7b\"".toList ++ joinChar '"' (appsPieces (a :: as) ++ [r]) =
      (((a :: as).map fun b => objectJson (appFields b)).intersperse ", ".toList).flatten ++
        ("\n  ],\n  \"".toList ++ r) := by
  have hne : appPieces a (glue as) ≠ [] := List.cons_ne_nil _ _
  induction as generalizing a with
  | nil =>
    rw [appsPieces, appsPieces, List.append_nil, joinChar_append hne (by simp), ← List.append_assoc,
      joinChar_appPieces]
    simp [glue, joinChar]
  | cons b as ih =>
    have hl : glue (b :: as) ++ '"' :: joinChar '"' (appsPieces (b :: as) ++ [r]) = ", ".toList ++
        ("\n    \x7b\"".toList ++ joinChar '"' (appsPieces (b :: as) ++ [r])) := by
      simp [glue]
    rw [appsPieces, List.append_assoc, joinChar_append hne (by simp), ← List.append_assoc,
      joinChar_appPieces, List.append_assoc, hl, ih (List.cons_ne_nil _ _)]
    simp

/-- The array of the alarms, with the end of the body. -/
def alarmsJson (s : Store) : List Char :=
  objectsJson (s.alarms.rows.map alarmJson) ++ "]\n\x7d\n".toList

/-- The pieces of the arrays. -/
theorem arraysJson_eq {s : Store} (h : ∀ a ∈ s.appsSnapshot, Unescaped a.appId) :
    [':', ' '] ++ '[' :: arraysJson s = joinChar '"' (opening s.appsSnapshot ::
      (appsPieces s.appsSnapshot ++ ["alarms".toList, [':', ' '] ++ '[' :: alarmsJson s])) := by
  have hmap : s.appsSnapshot.map appJson =
      s.appsSnapshot.map fun a => objectJson (appFields a) :=
    List.map_congr_left fun a ha => appJson_eq (h a ha)
  have hr : joinChar '"' ["alarms".toList, [':', ' '] ++ '[' :: alarmsJson s] =
      "alarms\": [".toList ++ alarmsJson s := by
    simp [joinChar]
  have harr : arraysJson s = objectsJson (s.appsSnapshot.map appJson) ++
      ("],\n  \"alarms\": [".toList ++ alarmsJson s) := rfl
  rw [← List.cons_append, ← joinChar_append_join (by simp), hr, harr, hmap]
  cases s.appsSnapshot with
  | nil => simp [opening, appsPieces, objectsJson, joinChar]
  | cons a as =>
    have hl : joinChar '"' (opening (a :: as) :: appsPieces (a :: as) ++
        ["alarms\": [".toList ++ alarmsJson s]) = ": [".toList ++ ("\n    \x7b\"".toList ++
          joinChar '"' (appsPieces (a :: as) ++ ["alarms\": [".toList ++ alarmsJson s])) := by
      rw [List.cons_append, joinChar_cons (by simp)]
      simp [opening]
    rw [hl, joinChar_appsPieces]
    simp [objectsJson]

/-- The quotes and the opening brackets in the pieces of an app are those of its name. -/
theorem notMem_appPieces {a : AppState} {t : List Char} {c : Char} (hc : c = '"' ∨ c = '[')
    (ha : c ∉ a.appId.toList) (ht : c ∉ t) : ∀ r ∈ appPieces a t, c ∉ r := by
  have hn : isNumeric c = false ∧ c ≠ ':' ∧ c ≠ ' ' := by
    rcases hc with rfl | rfl <;> exact ⟨rfl, by simp, by simp⟩
  have hpid : c ∉ numberJson a.pid [',', ' '] :=
    notMem_numberJson hn.1 hn.2.1 hn.2.2 (by rcases hc with rfl | rfl <;> simp)
  have hlaunched : c ∉ numberJson a.launchedAt ('\x7d' :: t) := by
    refine notMem_numberJson hn.1 hn.2.1 hn.2.2 fun h => ?_
    rcases List.mem_cons.mp h with rfl | h
    · simp at hc
    · exact ht h
  rcases hc with rfl | rfl <;> simp [appPieces, ha, hpid, hlaunched]

theorem notMem_appsPieces {as : List AppState} {c : Char} (hc : c = '"' ∨ c = '[')
    (h : ∀ a ∈ as, c ∉ a.appId.toList) : ∀ r ∈ appsPieces as, c ∉ r := by
  induction as with
  | nil => exact fun _ h => absurd h List.not_mem_nil
  | cons a as ih =>
    obtain ⟨ha, has⟩ := List.forall_mem_cons.mp h
    have hg : c ∉ glue as := by
      unfold glue
      rcases hc with rfl | rfl <;> split <;> simp
    rw [appsPieces, List.forall_mem_append]
    exact ⟨notMem_appPieces hc ha hg, ih has⟩

theorem Unopened.of_notMem {key : String} {ps : List (List Char)} (h : ∀ r ∈ ps, '[' ∉ r) :
    Unopened key ps :=
  List.Pairwise.imp_of_mem (fun _ hb _ _ => h _ hb)
    (List.pairwise_of_forall fun _ _ => trivial : ps.Pairwise fun _ _ => True)

/-- No array is opened between an app that is called like the alarms and their array. -/
theorem unopened_appsPieces {as : List AppState}
    (h : as.Pairwise fun a b => a.appId = "alarms" → '[' ∉ b.appId.toList) :
    Unopened "alarms" (appsPieces as) := by
  induction as with
  | nil => exact .nil
  | cons a as ih =>
    obtain ⟨ha, has⟩ := List.pairwise_cons.mp h
    by_cases hid : a.appId = "alarms"
    · refine .of_notMem (notMem_appsPieces (.inr rfl) (List.forall_mem_cons.mpr ⟨?_, ?_⟩))
      · simp [hid]
      · exact fun b hb => ha b hb hid
    · have hne : "alarms".toList ≠ a.appId.toList := fun h' => hid (String.toList_inj.mp h').symm
      refine .append ?_ (ih has)
      simpa [appPieces, numberJson] using hne

/-- Neither a closing bracket nor a closing brace is in the fields of an app, but for its
    name. -/
theorem notMem_appFields {a : AppState} {c : Char} (hc : c = ']' ∨ c = '\x7d')
    (ha : c ∉ a.appId.toList) : c ∉ appFields a := by
  have hn : isNumeric c = false ∧ c ≠ ':' ∧ c ≠ ' ' ∧ c ≠ '"' := by
    rcases hc with rfl | rfl <;> exact ⟨rfl, by simp, by simp, by simp⟩
  have hpid : c ∉ numberJson a.pid [',', ' '] :=
    notMem_numberJson hn.1 hn.2.1 hn.2.2.1 (by rcases hc with rfl | rfl <;> simp)
  have hlaunched : c ∉ numberJson a.launchedAt [] :=
    notMem_numberJson hn.1 hn.2.1 hn.2.2.1 (by simp)
  refine notMem_joinChar hn.2.2.2 ?_
  rcases hc with rfl | rfl <;> simp [ha, hpid, hlaunched]

theorem notMem_alarmFields {a : Alarm} {c : Char} (hc : c = ']' ∨ c = '\x7d')
    (ha : c ∉ a.appId.toList) : c ∉ alarmFields a := by
  have hn : isNumeric c = false ∧ c ≠ ':' ∧ c ≠ ' ' ∧ c ≠ '"' := by
    rcases hc with rfl | rfl <;> exact ⟨rfl, by simp, by simp, by simp⟩
  have hnum {n : Int} : c ∉ numberJson n [',', ' '] :=
    notMem_numberJson hn.1 hn.2.1 hn.2.2.1 (by rcases hc with rfl | rfl <;> simp)
  have hkind : c ∉ a.wakeKind.asWire.toList := by
    rcases hc with rfl | rfl <;> cases a.wakeKind <;> simp [LaunchKind.asWire]
  refine notMem_joinChar hn.2.2.2 ?_
  rcases hc with rfl | rfl <;> simp [ha, hnum, hkind]

/-! ## The state read back -/

/-- The values of a state are those of their types, and its apps and owners have names. -/
structure Store.Fits (s : Store) : Prop where
  apps : ∀ a ∈ s.appsSnapshot, a.appId ≠ "" ∧ IsI32 a.pid ∧ a.launchedAt < 2 ^ 63
  alarms : ∀ a ∈ s.alarms.rows,
    a.appId ≠ "" ∧ a.alarmId < 2 ^ 64 ∧ a.nextFireMs < 2 ^ 64 ∧ a.repeatMs < 2 ^ 64

/-- A name that neither ends an object nor an array. -/
def Plain (s : String) : Prop := Unescaped s ∧ ']' ∉ s.toList ∧ '\x7d' ∉ s.toList

/-- No text of a state misleads the search for keys and delimiters, and the numbers of its
    alarms fit a signed integer. -/
structure Store.Legible (s : Store) (fg : Option String) : Prop where
  /-- The texts before the arrays are written as they are, and are not taken for the key
      of an array that comes later. -/
  foreground : ∀ f ∈ fg, Unescaped f ∧ f ≠ "alarms"
  home : ∀ h ∈ s.home, Unescaped h ∧ h ≠ "alarms"
  bracket : fg = some "apps" → ∀ h ∈ s.home, '[' ∉ h.toList
  names : ∀ a ∈ s.appsSnapshot, Plain a.appId
  /-- No bracket comes between an app called like the alarms and their array. -/
  alarmsApp : s.appsSnapshot.Pairwise fun a b => a.appId = "alarms" → '[' ∉ b.appId.toList
  /-- The first number of what is called like the key of another one is that one. -/
  launched : ∀ a ∈ s.appsSnapshot,
    a.appId = "launched_at_unix" → (a.launchedAt : Int) = a.pid
  owners : ∀ a ∈ s.alarms.rows, Plain a.appId
  numbers : ∀ a ∈ s.alarms.rows,
    a.alarmId < 2 ^ 63 ∧ a.nextFireMs < 2 ^ 63 ∧ a.repeatMs < 2 ^ 63
  nextFire : ∀ a ∈ s.alarms.rows, a.appId = "next_fire_ms" → a.nextFireMs = a.alarmId
  repeats : ∀ a ∈ s.alarms.rows, a.appId = "repeat_ms" → a.repeatMs = a.alarmId
  wakeKind : ∀ a ∈ s.alarms.rows, a.appId = "wake_kind" → a.wakeKind = .headless

/-- A store that nothing was registered in. -/
structure Store.Fresh (s : Store) : Prop where
  apps : s.apps = .empty
  home : s.home = none
  alarms : s.alarms = .empty

/-- What was restored is the state, less the apps whose processes are dead. -/
structure Store.ReadBack (s : Store) (fg : Option String) (pidAlive : Pid → Bool) (mono : Nat)
    (r : RestoredFile) : Prop where
  home : r.store.home = s.home
  foreground : r.fg = fg.filter fun f => (s.app f).any fun a => pidAlive a.pid
  apps : ∀ o, r.store.app o =
    ((s.app o).filter fun a => pidAlive a.pid).map fun a => { a with launchedMono := mono }
  alarms : r.store.alarms.rows = s.alarms.rows.map fun a => { a with pendingDeliver := false }

section

variable {s : Store} {now : Nat} {fg : Option String} (hs : s.Fits) (hl : s.Legible fg)

include hs hl

theorem parseApps_toJson : parseApps (s.toJson now fg) =
    .ok ((s.appsSnapshot.filter fun a => 0 < a.pid).map fun a =>
      (a.appId, a.pid, a.launchedAt)) := by
  have hfg : ∀ f ∈ fg, Unescaped f := fun f hf => (hl.foreground f hf).1
  have hhome : ∀ h ∈ s.home, Unescaped h := fun h hh => (hl.home h hh).1
  have hstart : arrayStart (s.toJson now fg) "apps" = some (arraysJson s) := by
    rw [Store.toJson_eq hfg hhome]
    exact arrayStart_joinChar (by simp) (by simp) (quote_notMem_preamble hfg hhome)
      (unopened_preamble hl.bracket) (by simp)
  have hmap : s.appsSnapshot.map appJson = (s.appsSnapshot.map appFields).map objectJson := by
    rw [List.map_map]
    exact List.map_congr_left fun a ha => appJson_eq (hl.names a ha).1
  have hclose : ∀ e ∈ s.appsSnapshot.map appFields, ']' ∉ e :=
    List.forall_mem_map.mpr fun a ha => notMem_appFields (.inl rfl) (hl.names a ha).2.1
  have hbrace : ∀ e ∈ s.appsSnapshot.map appFields, '\x7d' ∉ e :=
    List.forall_mem_map.mpr fun a ha => notMem_appFields (.inr rfl) (hl.names a ha).2.2
  have hfirst : beforeFirst ']' (arraysJson s) =
      some (objectsJson ((s.appsSnapshot.map appFields).map objectJson)) := by
    rw [arraysJson, hmap]
    exact beforeFirst_append (bracket_notMem_objectsJson hclose)
  have hread : ∀ a ∈ s.appsSnapshot, (readApp ∘ appFields) a =
      if decide (0 < a.pid) then some (a.appId, a.pid, a.launchedAt) else none := by
    intro a ha
    obtain ⟨hne, hp, ht⟩ := hs.apps a ha
    simpa using readApp_appFields (hl.names a ha).1 hne hp ht (hl.launched a ha)
  simp only [parseApps, hstart, hfirst]
  rw [objects_objectsJson hbrace, List.filterMap_map, List.filterMap_congr hread,
    ← List.filterMap_eq_map, List.filterMap_filter]
  rfl

omit hs in
theorem arrayStart_alarms : arrayStart (s.toJson now fg) "alarms" = some (alarmsJson s) := by
  have hfg : ∀ f ∈ fg, Unescaped f := fun f hf => (hl.foreground f hf).1
  have hhome : ∀ h ∈ s.home, Unescaped h := fun h hh => (hl.home h hh).1
  have hfgne : fg ≠ some "alarms" := fun h => (hl.foreground _ h).2 rfl
  have hhomene : s.home ≠ some "alarms" := fun h => (hl.home _ h).2 rfl
  have happs : ∀ a ∈ s.appsSnapshot, Unescaped a.appId := fun a ha => (hl.names a ha).1
  have hquote : ∀ r ∈ "\x7b\n  ".toList :: (preamble now fg s.home ++
      "apps".toList :: opening s.appsSnapshot :: appsPieces s.appsSnapshot), '"' ∉ r := by
    rw [← List.cons_append, List.forall_mem_append]
    refine ⟨quote_notMem_preamble hfg hhome, List.forall_mem_cons.mpr ⟨by simp, ?_⟩⟩
    refine List.forall_mem_cons.mpr ⟨?_, notMem_appsPieces (.inl rfl) fun a ha => (happs a ha).1⟩
    unfold opening
    split <;> simp
  have hopen : Unopened "alarms" (preamble now fg s.home ++
      "apps".toList :: opening s.appsSnapshot :: appsPieces s.appsSnapshot) := by
    refine .append (alarms_notMem_preamble hfgne hhomene) ?_
    refine .append (l := ["apps".toList, opening s.appsSnapshot]) ?_
      (unopened_appsPieces hl.alarmsApp)
    unfold opening
    split <;> simp
  have hj : "\x7b\n  ".toList :: (preamble now fg s.home ++
      "apps".toList :: ([':', ' '] ++ '[' :: arraysJson s) :: []) =
        ("\x7b\n  ".toList :: (preamble now fg s.home ++ ["apps".toList])) ++
          [[':', ' '] ++ '[' :: arraysJson s] := by
    simp
  have hj' : ("\x7b\n  ".toList :: (preamble now fg s.home ++ ["apps".toList])) ++
      (opening s.appsSnapshot :: (appsPieces s.appsSnapshot ++
        ["alarms".toList, [':', ' '] ++ '[' :: alarmsJson s])) =
        "\x7b\n  ".toList :: ((preamble now fg s.home ++ "apps".toList ::
          opening s.appsSnapshot :: appsPieces s.appsSnapshot) ++
            "alarms".toList :: ([':', ' '] ++ '[' :: alarmsJson s) :: []) := by
    simp
  rw [Store.toJson_eq hfg hhome, hj, arraysJson_eq happs, joinChar_append_join (by simp), hj']
  exact arrayStart_joinChar (by simp) (by simp) hquote hopen (by simp)

theorem parseAlarms_toJson : parseAlarms (s.toJson now fg) =
    s.alarms.rows.map fun a => { a with pendingDeliver := false } := by
  have hmap : s.alarms.rows.map alarmJson = (s.alarms.rows.map alarmFields).map objectJson := by
    rw [List.map_map]
    exact List.map_congr_left fun a ha => alarmJson_eq (hl.owners a ha).1
  have hclose : ∀ e ∈ s.alarms.rows.map alarmFields, ']' ∉ e :=
    List.forall_mem_map.mpr fun a ha => notMem_alarmFields (.inl rfl) (hl.owners a ha).2.1
  have hbrace : ∀ e ∈ s.alarms.rows.map alarmFields, '\x7d' ∉ e :=
    List.forall_mem_map.mpr fun a ha => notMem_alarmFields (.inr rfl) (hl.owners a ha).2.2
  have hfirst : beforeFirst ']' (alarmsJson s) =
      some (objectsJson ((s.alarms.rows.map alarmFields).map objectJson)) := by
    rw [alarmsJson, hmap]
    exact beforeFirst_append (bracket_notMem_objectsJson hclose)
  have hread : ∀ a ∈ s.alarms.rows, (readAlarm ∘ alarmFields) a =
      some { a with pendingDeliver := false } := fun a ha =>
    readAlarm_alarmFields (hl.owners a ha).1 (hs.alarms a ha).1 (hl.numbers a ha)
      (hl.nextFire a ha) (hl.repeats a ha) (hl.wakeKind a ha)
  simp only [parseAlarms, arrayStart_alarms hl, hfirst]
  rw [objects_objectsJson hbrace, List.filterMap_map, List.filterMap_congr hread]
  exact congrFun List.filterMap_eq_map _

end

/-! ## Restoring -/

theorem foldl_insertApp {s : Store} {mono : Nat} {l : List (String × Pid × Nat)} :
    l.foldl (fun s e => s.insertApp ⟨e.1, e.2.1, e.2.2, mono⟩) s =
      { s with apps := (l.map fun e => ⟨e.1, e.2.1, e.2.2, mono⟩).foldl Table.put s.apps } := by
  induction l generalizing s with
  | nil => rfl
  | cons e l ih => exact ih

theorem foldl_upsertAlarm {s : Store} {l : List Alarm} :
    l.foldl Store.upsertAlarm s = { s with alarms := l.foldl Table.put s.alarms } := by
  induction l generalizing s with
  | nil => rfl
  | cons a l ih => exact ih

/-- The apps that are alive, as they are registered again. -/
def living (pidAlive : Pid → Bool) (mono : Nat) (es : List (String × Pid × Nat)) : List AppState :=
  (es.filter fun e => pidAlive e.2.1).map fun e => ⟨e.1, e.2.1, e.2.2, mono⟩

theorem Store.restoreFromJson_eq {s : Store} {body : List Char} {pidAlive : Pid → Bool} {mono : Nat}
    {es : List (String × Pid × Nat)} (h : parseApps body = .ok es) :
    ∃ r, s.restoreFromJson pidAlive mono body = .ok r ∧
      r.store.home = (parseTopString body "home").or s.home ∧
      r.store.apps = (living pidAlive mono es).foldl Table.put s.apps ∧
      r.store.alarms = (parseAlarms body).foldl Table.put s.alarms ∧
      r.fg = (parseTopString body "foreground").filter fun f => (r.store.app f).isSome := by
  rw [Store.restoreFromJson, h]
  refine ⟨_, rfl, ?_⟩
  rw [foldl_insertApp, foldl_upsertAlarm]
  rcases parseTopString body "home" with _ | home
  · exact ⟨rfl, rfl, rfl, rfl⟩
  · exact ⟨rfl, rfl, rfl, rfl⟩

theorem living_eq {pidAlive : Pid → Bool} {mono : Nat} {as : List AppState}
    (halive : ∀ p : Pid, pidAlive p → 0 < p) :
    living pidAlive mono ((as.filter fun a => 0 < a.pid).map
      fun a => (a.appId, a.pid, a.launchedAt)) =
        (as.filter fun a => pidAlive a.pid).map fun a => { a with launchedMono := mono } := by
  rw [living, List.filter_map, List.filter_filter, List.map_map]
  congr 2
  funext a
  by_cases h : pidAlive a.pid
  · simp [h, halive a.pid h]
  · simp [h]

/-- The state is read back, where nothing in it misleads the reader. -/
theorem Store.restore_toJson {s s₀ : Store} {now mono : Nat} {fg : Option String}
    {pidAlive : Pid → Bool} (hs : s.Fits) (h₀ : s₀.Fresh)
    (halive : ∀ p : Pid, pidAlive p → 0 < p) (hl : s.Legible fg) :
    ∃ r, s₀.restoreFromJson pidAlive mono (s.toJson now fg) = .ok r ∧
      s.ReadBack fg pidAlive mono r := by
  have hfg : ∀ f ∈ fg, Unescaped f := fun f hf => (hl.foreground f hf).1
  have hhome : ∀ h ∈ s.home, Unescaped h := fun h hh => (hl.home h hh).1
  have hreadFg : parseTopString (s.toJson now fg) "foreground" = fg := by
    rw [Store.toJson_eq hfg hhome]
    exact parseTopString_foreground hfg
  have hreadHome : parseTopString (s.toJson now fg) "home" = s.home := by
    rw [Store.toJson_eq hfg hhome]
    exact parseTopString_home hfg hhome
  obtain ⟨r, hr, hhome', happs, halarms, hfg'⟩ :=
    Store.restoreFromJson_eq (s := s₀) (parseApps_toJson hs hl)
  rw [hreadHome, h₀.home, Option.or_none] at hhome'
  rw [living_eq halive, h₀.apps] at happs
  rw [parseAlarms_toJson hs hl, h₀.alarms] at halarms
  have hrows : r.store.apps.rows =
      (s.appsSnapshot.filter fun a => pidAlive a.pid).map fun a =>
        { a with launchedMono := mono } := by
    rw [happs, Table.rows_foldl_put]
    · rfl
    · rw [Table.rows_empty, List.nil_append, List.map_map]
      exact s.apps.nodup.sublist (List.filter_sublist.map _)
  have happ {o : String} : r.store.app o =
      ((s.app o).filter fun a => pidAlive a.pid).map fun a => { a with launchedMono := mono } := by
    refine Table.get?_of_rows (f := fun a : AppState => { a with launchedMono := mono }) ?_ hrows
    exact fun _ => rfl
  refine ⟨r, hr, hhome', ?_, fun o => happ, ?_⟩
  · rw [hfg', hreadFg]
    congr 1
    funext f
    rw [happ]
    cases s.app f with
    | none => rfl
    | some a => by_cases h : pidAlive a.pid <;> simp [Option.filter, h]
  · rw [halarms, Table.rows_foldl_put]
    · rfl
    · rw [Table.rows_empty, List.nil_append, List.map_map]
      exact s.alarms.nodup

/-- A clock, in the foreground, and its alarm. -/
def clock (alarmId : Nat) : Store where
  home := some "com.example.home"
  apps := Table.empty.put ⟨"com.example.clock", 4242, 1700000000, 0⟩
  alarms := Table.empty.put
    { appId := "com.example.clock", alarmId, nextFireMs := 1700000060000, repeatMs := 0,
      wakeKind := .gui, pendingDeliver := true }

theorem clock_fits {n : Nat} (h : n < 2 ^ 64) : (clock n).Fits where
  apps a ha := by
    obtain rfl := List.mem_singleton.mp ha
    exact ⟨by simp, ⟨by decide, by decide⟩, by decide⟩
  alarms a ha := by
    obtain rfl := List.mem_singleton.mp ha
    exact ⟨by simp, h, by simp, by simp⟩

theorem clock_legible {n : Nat} (h : n < 2 ^ 63) :
    (clock n).Legible (some "com.example.clock") where
  foreground f hf := by
    obtain rfl := Option.some.inj hf
    exact ⟨⟨by simp, by simp⟩, by simp⟩
  home f hf := by
    obtain rfl := Option.some.inj hf
    exact ⟨⟨by simp, by simp⟩, by simp⟩
  bracket := by simp
  names a ha := by
    obtain rfl := List.mem_singleton.mp ha
    exact ⟨⟨by simp, by simp⟩, by simp, by simp⟩
  alarmsApp := List.pairwise_singleton ..
  launched a ha := by
    obtain rfl := List.mem_singleton.mp ha
    simp
  owners a ha := by
    obtain rfl := List.mem_singleton.mp ha
    exact ⟨⟨by simp, by simp⟩, by simp, by simp⟩
  numbers a ha := by
    obtain rfl := List.mem_singleton.mp ha
    exact ⟨h, by simp, by simp⟩
  nextFire a ha := by
    obtain rfl := List.mem_singleton.mp ha
    simp
  repeats a ha := by
    obtain rfl := List.mem_singleton.mp ha
    simp
  wakeKind a ha := by
    obtain rfl := List.mem_singleton.mp ha
    simp

theorem Store.restore_toJson_clock : ∃ r, ({} : Store).restoreFromJson (fun p => 0 < p) 9
      ((clock 1).toJson 1700000000 (some "com.example.clock")) = .ok r ∧
    (clock 1).ReadBack (some "com.example.clock") (fun p => 0 < p) 9 r :=
  Store.restore_toJson (clock_fits (by decide)) ⟨rfl, rfl, rfl⟩ (by simp)
    (clock_legible (by decide))

/-- An alarm whose number is not a signed integer is not read back: its number is `0`. -/
theorem Store.alarm_forgotten : (clock (2 ^ 63)).Fits ∧
    ¬ ∃ r, ({} : Store).restoreFromJson (fun p => 0 < p) 9
        ((clock (2 ^ 63)).toJson 1700000000 (some "com.example.clock")) = .ok r ∧
      (clock (2 ^ 63)).ReadBack (some "com.example.clock") (fun p => 0 < p) 9 r := by
  refine ⟨clock_fits (by decide), ?_⟩
  rintro ⟨r, hr, hback⟩
  have hread : ((({} : Store).restoreFromJson (fun p => 0 < p) 9
      ((clock (2 ^ 63)).toJson 1700000000 (some "com.example.clock"))).toOption.map
        fun r => r.store.alarms.rows.map (·.alarmId)) = some [0] := by
    decide +kernel
  rw [hr] at hread
  have hids : r.store.alarms.rows.map (·.alarmId) = [0] := Option.some.inj hread
  rw [hback.alarms] at hids
  revert hids
  decide

end Wandr
