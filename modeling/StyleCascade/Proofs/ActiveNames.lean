import Mathlib.Data.List.Induction
import StyleCascade.Proofs.Compilation
import StyleCascade.Proofs.HostRun

/-!
# Names of active themes

A theme becomes active where a request puts it to use: by an activation, or by the load of a
definition that compiles.  A load lets only names through that the check of names accepts, and
these are the names in kebab case and, besides, those with one line feed behind them.  So the
names that ever become active by loads are in kebab case but for that line feed, and whether there
is one can be told from the definitions alone.

* `InKebabCase` — a name that is in kebab case as a whole; `isKebabName_iff`, `inKebabCase_iff`
  tell what the check of names makes of it.
* `Definition.IsLoadable` — the definitions that can be loaded.
* `HostRequest.theme?` — the theme that a request puts to use.
* `ThemeHost.BecomesActive` — the names that become active in a run;
  `ThemeHost.becomesActive_iff`, `ThemeHost.becomesActive_iff_loads` tell which these are.
* `ThemeHost.becomesActive_inKebabCase_iff` — when all of them are in kebab case.
-/

namespace StyleCascade

/-! ## Names in kebab case -/

/-- A name that is in kebab case as a whole: a lower-case ASCII letter, and behind it nothing but
lower-case ASCII letters, digits and hyphens. -/
def InKebabCase (name : String) : Prop :=
  ∃ c cs, name.toList = c :: cs ∧ ('a' ≤ c ∧ c ≤ 'z') ∧
    ∀ d ∈ cs, ('a' ≤ d ∧ d ≤ 'z') ∨ ('0' ≤ d ∧ d ≤ '9') ∨ d = '-'

theorem isLowerLetter_iff (c : Char) : isLowerLetter c = true ↔ 'a' ≤ c ∧ c ≤ 'z' := by
  simp [isLowerLetter]

theorem isKebab_iff (c : Char) :
    isKebab c = true ↔ ('a' ≤ c ∧ c ≤ 'z') ∨ ('0' ≤ c ∧ c ≤ '9') ∨ c = '-' := by
  simp [isKebab, isLowerLetter_iff, or_assoc]

theorem dropLineEnd_concat (s : List Char) : dropLineEnd (s ++ ['\n']) = s := by
  simp [dropLineEnd]

theorem dropLineEnd_of_getLast?_ne {s : List Char} (h : s.getLast? ≠ some '\n') :
    dropLineEnd s = s := by
  rw [dropLineEnd, if_neg (by simpa using h)]

/-- No name in kebab case ends in a line feed. -/
theorem InKebabCase.getLast?_ne {name : String} (h : InKebabCase name) :
    name.toList.getLast? ≠ some '\n' := by
  obtain ⟨c, cs, hname, hc, hcs⟩ := h
  intro hlast
  have hmem : '\n' ∈ c :: cs := List.mem_of_getLast? (hname ▸ hlast)
  rcases List.mem_cons.1 hmem with rfl | hmem
  · exact absurd hc (by decide)
  · exact absurd (hcs _ hmem) (by decide)

/-- A name without a line feed at its end is accepted if and only if it is in kebab case. -/
theorem isKebabName_iff_inKebabCase {name : String} (h : name.toList.getLast? ≠ some '\n') :
    isKebabName name = true ↔ InKebabCase name := by
  unfold isKebabName InKebabCase
  cases hname : name.toList with
  | nil => simp
  | cons c cs =>
    have hcs : cs.getLast? ≠ some '\n' := by
      intro hlast
      rw [hname, List.getLast?_cons, hlast] at h
      exact h rfl
    simp [dropLineEnd_of_getLast?_ne hcs, isLowerLetter_iff, isKebab_iff, and_assoc]

/-- A name with a line feed behind it is accepted if and only if it is in kebab case without it. -/
theorem isKebabName_append_lineFeed (stem : String) :
    isKebabName (stem ++ "\n") = true ↔ InKebabCase stem := by
  unfold isKebabName InKebabCase
  rw [String.toList_append]
  cases stem.toList with
  | nil =>
    -- the line feed then stands where the first letter should
    simp [isLowerLetter_iff]
  | cons c cs => simp [dropLineEnd_concat, isLowerLetter_iff, isKebab_iff, and_assoc]

theorem exists_append_lineFeed {name : String} (h : name.toList.getLast? = some '\n') :
    ∃ stem : String, name = stem ++ "\n" := by
  obtain ⟨front, hfront⟩ := List.getLast?_eq_some_iff.1 h
  exact ⟨String.ofList front, String.toList_inj.1 (by simp [hfront])⟩

/-- **What the check of names accepts**: names in kebab case, and these with one line feed behind
them. -/
theorem isKebabName_iff (name : String) :
    isKebabName name = true ↔
      ∃ stem, InKebabCase stem ∧ (name = stem ∨ name = stem ++ "\n") := by
  constructor
  · intro h
    by_cases hlast : name.toList.getLast? = some '\n'
    · obtain ⟨stem, rfl⟩ := exists_append_lineFeed hlast
      exact ⟨stem, (isKebabName_append_lineFeed stem).1 h, .inr rfl⟩
    · exact ⟨name, (isKebabName_iff_inKebabCase hlast).1 h, .inl rfl⟩
  · rintro ⟨stem, hstem, rfl | rfl⟩
    · exact (isKebabName_iff_inKebabCase hstem.getLast?_ne).2 hstem
    · exact (isKebabName_append_lineFeed stem).2 hstem

/-- The names in kebab case are those that the check accepts and that end in no line feed. -/
theorem inKebabCase_iff (name : String) :
    InKebabCase name ↔ isKebabName name = true ∧ name.toList.getLast? ≠ some '\n' := by
  constructor
  · intro h
    exact ⟨(isKebabName_iff_inKebabCase h.getLast?_ne).2 h, h.getLast?_ne⟩
  · rintro ⟨hname, hlast⟩
    exact (isKebabName_iff_inKebabCase hlast).1 hname

example : isKebabName "my-theme\n" = true ∧ isKebabName "my-theme\n\n" = false := by decide

/-! ## What a load puts to use -/

/-- A definition that can be loaded: its form is sound, and its class tables can be read. -/
def Definition.IsLoadable (definition : Definition) : Prop :=
  definition.IsSound ∧ ¬definition.propMaps.IsNoTables

/-- The theme that a definition puts to use has its name, and there is one if and only if the
definition can be loaded. -/
theorem Definition.exists_loadedTheme_iff (definition : Definition) (config : Config)
    (name : String) :
    (∃ theme, definition.loadedTheme config = some theme ∧ theme.name = name) ↔
      definition.IsLoadable ∧ definition.name = name := by
  unfold Definition.loadedTheme Definition.IsLoadable
  by_cases hsound : definition.IsSound
  · rw [compile_of_isSound config hsound]
    cases htables : ClassTables.ofValue definition.propMaps with
    | error reason =>
      have hnone := ((ClassTables.ofValue_eq_error_iff _ _).1 htables).1
      simp [Except.map, hnone]
    | ok tables =>
      have hread : ¬definition.propMaps.IsNoTables := by
        intro hnone
        have herror := (ClassTables.ofValue_eq_error_iff _ _).2 ⟨hnone, rfl⟩
        rw [htables] at herror
        cases herror
      simp [Except.map, hsound, hread, themeWith]
  · simp [compile_of_not_isSound config hsound, hsound]

/-- The theme that a request puts to use, if it does. -/
def HostRequest.theme? (config : Config) : HostRequest → Option Theme
  | .load definition => definition.loadedTheme config
  | .activate theme => some theme
  | .deactivate => none
  | .ask _ => none
  | .askNumber _ _ => none

namespace History

theorem ofRequests_concat (config : Config) (before : List HostRequest) (request : HostRequest) :
    ofRequests config (before ++ [request]) = (ofRequests config before).after config request := by
  rw [ofRequests, ofRequests, List.foldl_append, List.foldl_cons, List.foldl_nil]

/-- What a request puts to use is the current theme afterwards. -/
theorem current_after_of_theme? {config : Config} {request : HostRequest} {theme : Theme}
    (h : request.theme? config = some theme) (history : History) :
    (history.after config request).current = some theme := by
  cases request with
  | load definition =>
    have hloaded : definition.loadedTheme config = some theme := h
    simp only [after, hloaded, withTheme]
  | activate theme' => exact h
  | deactivate => cases h
  | ask q => cases h
  | askNumber number q => cases h

/-- The current theme after a request was put to use by it or was the current one before. -/
theorem theme?_or_of_current_after {config : Config} {history : History} {request : HostRequest}
    {theme : Theme} (h : (history.after config request).current = some theme) :
    request.theme? config = some theme ∨ history.current = some theme := by
  cases request with
  | load definition =>
    simp only [after] at h
    show definition.loadedTheme config = some theme ∨ _
    cases hloaded : definition.loadedTheme config with
    | none =>
      rw [hloaded] at h
      exact .inr h
    | some theme' =>
      rw [hloaded] at h
      exact .inl h
  | activate theme' => exact .inl h
  | deactivate => cases h
  | ask q => exact .inr h
  | askNumber number q => exact .inr h

/-- The current theme of a history goes back to a request of the run. -/
theorem exists_theme?_of_current {config : Config} {requests : List HostRequest} {theme : Theme}
    (h : (ofRequests config requests).current = some theme) :
    ∃ request ∈ requests, request.theme? config = some theme := by
  -- from the end of the run: its last request counts, and else what came before
  induction requests using List.reverseRecOn with
  | nil => cases h
  | append_singleton before request ih =>
    rw [ofRequests_concat] at h
    rcases theme?_or_of_current_after h with hrequest | hbefore
    · exact ⟨request, by simp, hrequest⟩
    · obtain ⟨earlier, hmem, htheme⟩ := ih hbefore
      exact ⟨earlier, List.mem_append_left _ hmem, htheme⟩

end History

namespace ThemeHost

/-! ## Names along a run -/

/-- A name that becomes active in a run: at some point of the run, the active theme has it. -/
def BecomesActive (config : Config) (requests : List HostRequest) (name : String) : Prop :=
  ∃ before, before <+: requests ∧ ((start config).run before).themeName = some name

theorem themeName_run (config : Config) (requests : List HostRequest) :
    ((start config).run requests).themeName =
      (History.ofRequests config requests).current.map Theme.name :=
  ((follows_start config).run requests).themeName_eq

/-- **The names that become active** are those of the themes that the requests put to use. -/
theorem becomesActive_iff {config : Config} {requests : List HostRequest} {name : String} :
    BecomesActive config requests name ↔
      ∃ request ∈ requests, ∃ theme, request.theme? config = some theme ∧ theme.name = name := by
  constructor
  · rintro ⟨before, hbefore, hname⟩
    rw [themeName_run, Option.map_eq_some_iff] at hname
    obtain ⟨theme, hcurrent, hname⟩ := hname
    obtain ⟨request, hmem, htheme⟩ := History.exists_theme?_of_current hcurrent
    exact ⟨request, hbefore.subset hmem, theme, htheme, hname⟩
  · rintro ⟨request, hmem, theme, htheme, rfl⟩
    -- the name is active right behind the request
    obtain ⟨before, rest, rfl⟩ := List.append_of_mem hmem
    refine ⟨before ++ [request], ⟨rest, by simp⟩, ?_⟩
    have hcurrent :
        (History.ofRequests config (before ++ [request])).current = some theme := by
      rw [History.ofRequests_concat]
      exact History.current_after_of_theme? htheme _
    rw [themeName_run, hcurrent, Option.map_some]

/-- Where no theme is activated directly, the names that become active are those of the definitions
that are loaded. -/
theorem becomesActive_iff_loads {config : Config} {requests : List HostRequest}
    (hloads : ∀ theme, .activate theme ∉ requests) {name : String} :
    BecomesActive config requests name ↔
      ∃ definition, .load definition ∈ requests ∧ definition.IsLoadable ∧
        definition.name = name := by
  rw [becomesActive_iff]
  constructor
  · rintro ⟨request, hmem, htheme⟩
    cases request with
    | load definition =>
      exact ⟨definition, hmem, (definition.exists_loadedTheme_iff config name).1 htheme⟩
    | activate theme => exact absurd hmem (hloads theme)
    | deactivate => simp [HostRequest.theme?] at htheme
    | ask q => simp [HostRequest.theme?] at htheme
    | askNumber number q => simp [HostRequest.theme?] at htheme
  · rintro ⟨definition, hmem, hload⟩
    exact ⟨.load definition, hmem, (definition.exists_loadedTheme_iff config name).2 hload⟩

/-- **When only names in kebab case become active.**  In every run of loads, deactivations and
queries, the active theme has at each point a name in kebab case, or one with a single line feed
behind it.  All the names are in kebab case if and only if no definition that is loaded has a name
that ends in a line feed. -/
theorem becomesActive_inKebabCase_iff (config : Config) {requests : List HostRequest}
    (hloads : ∀ theme, .activate theme ∉ requests) :
    (∀ name, BecomesActive config requests name →
      ∃ stem, InKebabCase stem ∧ (name = stem ∨ name = stem ++ "\n")) ∧
    ((∀ name, BecomesActive config requests name → InKebabCase name) ↔
      ∀ definition, .load definition ∈ requests → definition.IsLoadable →
        definition.name.toList.getLast? ≠ some '\n') := by
  have hactive : ∀ name, BecomesActive config requests name → isKebabName name = true := by
    intro name h
    obtain ⟨definition, -, hload, rfl⟩ := (becomesActive_iff_loads hloads).1 h
    exact hload.1.name
  refine ⟨fun name h => (isKebabName_iff name).1 (hactive name h), ?_⟩
  constructor
  · intro h definition hmem hload
    exact (h _ ((becomesActive_iff_loads hloads).2 ⟨definition, hmem, hload, rfl⟩)).getLast?_ne
  · intro h name hname
    obtain ⟨definition, hmem, hload, rfl⟩ := (becomesActive_iff_loads hloads).1 hname
    exact (inKebabCase_iff _).2 ⟨hactive _ hname, h definition hmem hload⟩

/-- A name with a line feed behind it does not become active where its definition has a blank
selector. -/
theorem becomesActive_inKebabCase_iff_blank :
    let blank : Definition := { name := "draft\n", overrides := .ofList [("", .null)] }
    let requests : List HostRequest :=
      [.load { name := "retro-80s" }, .load blank, .ask { component := "button" }, .deactivate]
    (∀ theme, .activate theme ∉ requests) ∧ BecomesActive {} requests "retro-80s" ∧
      ∀ name, BecomesActive {} requests name → InKebabCase name := by
  intro blank requests
  have hloads : ∀ theme, .activate theme ∉ requests := by simp [requests]
  refine ⟨hloads, ?_, ?_⟩
  · exact ⟨[.load { name := "retro-80s" }], ⟨requests.tail, rfl⟩, by decide⟩
  · refine (becomesActive_inKebabCase_iff {} hloads).2.2 ?_
    intro definition hmem hload
    simp only [requests, List.mem_cons, HostRequest.load.injEq, reduceCtorEq, or_false,
      List.not_mem_nil] at hmem
    rcases hmem with rfl | rfl
    · decide
    · exact absurd (hload.1.selectors "" (by decide)) (by decide)

/-- A name with a line feed at its end becomes active by a load. -/
theorem not_inKebabCase_lineFeed :
    (∀ theme, .activate theme ∉ [HostRequest.load { name := "nature\n" }]) ∧
      BecomesActive {} [.load { name := "nature\n" }] "nature\n" ∧ ¬InKebabCase "nature\n" := by
  refine ⟨by simp, ?_, fun h => h.getLast?_ne (by decide)⟩
  exact ⟨[.load { name := "nature\n" }], List.prefix_rfl, by decide⟩

end ThemeHost

end StyleCascade
