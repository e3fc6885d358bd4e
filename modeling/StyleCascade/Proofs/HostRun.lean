import StyleCascade.Proofs.ResolverRun
import StyleCascade.ThemeHost

/-!
# Runs of a host

A host loads, activates and deactivates themes and answers queries, through the active resolver
or through any resolver that it handed out before.  Behind it stands a memory of answers for
every resolver.  The history of a run — which themes were put to use, and which of them is the
current one — is told by the requests alone, and tells everything that the host answers.

* `HostRequest`, `ThemeHost.run` — a run.
* `History` — the themes put to use so far and the current one; `History.after` is the rule.
* `ThemeHost.Follows` — the invariant: each resolver is one for its theme of the history, and
  every answer that it keeps is true.
* `ThemeHost.run_answers_as_history` — after any run the host answers as new resolvers for the
  themes of the history would.
-/

namespace StyleCascade

/-- What a host is asked to do. -/
inductive HostRequest where
  /-- To compile a definition and make its theme the active one. -/
  | load (definition : Definition)
  /-- To make a theme the active one. -/
  | activate (theme : Theme)
  /-- To leave no theme active. -/
  | deactivate
  /-- To answer a query. -/
  | ask (q : Query)
  /-- To answer a query from one of the resolvers handed out before. -/
  | askNumber (number : Nat) (q : Query)

/-! ## The history of a run -/

/-- The theme that loading a definition puts to use: the compiled one, where it has no errors. -/
def Definition.loadedTheme (definition : Definition) (config : Config) : Option Theme :=
  match definition.compile config with
  | .ok result => result.theme
  | .error _ => none

/-- What the requests of a run say about themes. -/
structure History where
  /-- The themes put to use, in order. -/
  themes : List Theme := []
  /-- The theme put to use last, unless there was none or it was taken back since. -/
  current : Option Theme := none

namespace History

/-- The history after a theme was put to use. -/
def withTheme (history : History) (theme : Theme) : History :=
  { themes := history.themes ++ [theme], current := some theme }

/-- The history after a request: a load without errors and an activation put a theme to use, a
deactivation takes it back, and nothing else counts. -/
def after (config : Config) (history : History) : HostRequest → History
  | .load definition =>
    match definition.loadedTheme config with
    | some theme => history.withTheme theme
    | none => history
  | .activate theme => history.withTheme theme
  | .deactivate => { history with current := none }
  | .ask _ => history
  | .askNumber _ _ => history

/-- The history of a run. -/
def ofRequests (config : Config) (requests : List HostRequest) : History :=
  requests.foldl (after config) {}

end History

namespace ThemeHost

/-! ## Runs -/

/-- The host after a request. -/
def after (host : ThemeHost) : HostRequest → ThemeHost
  | .load definition => (host.load definition).host
  | .activate theme => host.activate theme
  | .deactivate => host.deactivate
  | .ask q => (host.resolve q).host
  | .askNumber number q => ((host.resolveWith number q).map HostAnswer.host).getD host

/-- The host after a list of requests. -/
def run (host : ThemeHost) (requests : List HostRequest) : ThemeHost := requests.foldl after host

/-! ## The invariant -/

/-- A resolver for a theme, whatever true answers it keeps. -/
def Serves (config : Config) (theme : Theme) (resolver : Resolver) : Prop :=
  (Resolver.ofTheme theme config).SameTheme resolver ∧ resolver.KeepsTruth

/-- **The invariant.**  A host has a resolver for each theme of the history, in order, and its
active resolver is the one for the current theme. -/
structure Follows (host : ThemeHost) (config : Config) (history : History) : Prop where
  config_eq : host.config = config
  length_eq : host.resolvers.length = history.themes.length
  serves : ∀ (number : Nat) theme resolver, history.themes[number]? = some theme →
    host.resolvers[number]? = some resolver → Serves config theme resolver
  active : history.current = host.active.bind (history.themes[·]?)
  active_lt : ∀ number, host.active = some number → number < history.themes.length

theorem serves_ofTheme (config : Config) (theme : Theme) :
    Serves config theme (.ofTheme theme config) :=
  ⟨.refl _, Resolver.keepsTruth_ofTheme theme config⟩

theorem Serves.resolve {config : Config} {theme : Theme} {resolver : Resolver}
    (h : Serves config theme resolver) (q : Query) :
    Serves config theme (resolver.resolve q).resolver :=
  ⟨h.1.trans (Resolver.sameTheme_resolve resolver q), Resolver.keepsTruth_resolve h.2 q⟩

/-- A resolver for a theme answers as a new one would. -/
theorem Serves.props_resolve {config : Config} {theme : Theme} {resolver : Resolver}
    (h : Serves config theme resolver) (q : Query) :
    (resolver.resolve q).props = ((Resolver.ofTheme theme config).resolve q).props := by
  rw [Resolver.props_resolve h.2, h.1.compute_eq,
    Resolver.props_resolve (Resolver.keepsTruth_ofTheme theme config)]

theorem follows_start (config : Config) : (start config).Follows config {} where
  config_eq := rfl
  length_eq := rfl
  serves := by intro number theme resolver htheme; simp at htheme
  active := rfl
  active_lt := by intro number h; simp [start] at h

section
variable {host : ThemeHost} {config : Config} {history : History}

/-- The resolver of a number, where the history has a theme of that number. -/
theorem Follows.exists_resolver (h : host.Follows config history) {number : Nat} {theme : Theme}
    (htheme : history.themes[number]? = some theme) :
    ∃ resolver, host.resolvers[number]? = some resolver ∧ Serves config theme resolver := by
  obtain ⟨hlt, -⟩ := List.getElem?_eq_some_iff.1 htheme
  have hresolver := List.getElem?_eq_getElem (h.length_eq ▸ hlt)
  exact ⟨_, hresolver, h.serves number theme _ htheme hresolver⟩

/-! ### Steps -/

theorem Follows.activate (h : host.Follows config history) (theme : Theme) :
    (host.activate theme).Follows config (history.withTheme theme) where
  config_eq := h.config_eq
  length_eq := by simp [ThemeHost.activate, History.withTheme, h.length_eq]
  serves := by
    intro number theme' resolver htheme hresolver
    simp only [ThemeHost.activate, History.withTheme, List.getElem?_append, h.length_eq,
      h.config_eq] at htheme hresolver
    split at htheme
    · rename_i hlt
      rw [if_pos hlt] at hresolver
      exact h.serves number theme' resolver htheme hresolver
    · rename_i hge
      rw [if_neg hge] at hresolver
      -- behind the old resolvers there is only the new one
      cases hk : number - history.themes.length with
      | zero =>
        simp only [hk, List.getElem?_cons_zero, Option.some.injEq] at htheme hresolver
        obtain ⟨rfl, rfl⟩ := And.intro htheme hresolver
        exact serves_ofTheme config theme
      | succ k => simp [hk] at htheme
  active := by simp [History.withTheme, ThemeHost.activate, h.length_eq]
  active_lt := by
    intro number hnumber
    simp only [ThemeHost.activate, Option.some.injEq] at hnumber
    simp [History.withTheme, ← hnumber, h.length_eq]

theorem Follows.deactivate (h : host.Follows config history) :
    host.deactivate.Follows config { history with current := none } where
  config_eq := h.config_eq
  length_eq := h.length_eq
  serves := h.serves
  active := rfl
  active_lt := by intro number hnumber; simp [ThemeHost.deactivate] at hnumber

/-- A query changes one resolver, and that one only in the answers that it keeps. -/
theorem Follows.resolveWith (h : host.Follows config history) {number : Nat} {q : Query}
    {answer : HostAnswer} (hanswer : host.resolveWith number q = some answer) :
    answer.host.Follows config history := by
  obtain ⟨resolver, hresolver, rfl⟩ := Option.map_eq_some_iff.1 hanswer
  refine ⟨h.config_eq, ?_, ?_, h.active, h.active_lt⟩
  · rw [List.length_set, h.length_eq]
  · intro number' theme resolver' htheme hresolver'
    rw [List.getElem?_set] at hresolver'
    split at hresolver'
    · rename_i heq
      split at hresolver'
      · obtain rfl := Option.some.inj hresolver'
        subst heq
        exact (h.serves number theme resolver htheme hresolver).resolve q
      · cases hresolver'
    · exact h.serves number' theme resolver' htheme hresolver'

theorem Follows.resolve (h : host.Follows config history) (q : Query) :
    (host.resolve q).host.Follows config history := by
  unfold ThemeHost.resolve
  cases hanswer : host.active.bind (host.resolveWith · q) with
  | none => exact h
  | some answer =>
    obtain ⟨number, -, hnumber⟩ := Option.bind_eq_some_iff.1 hanswer
    exact h.resolveWith hnumber

/-- Loading succeeds exactly where the definition compiles to a theme, and then activates it; else
the host stays as it is. -/
theorem load_eq (host : ThemeHost) (definition : Definition) :
    match definition.loadedTheme host.config with
    | some theme => host.load definition = ⟨.ok host.resolvers.length, host.activate theme⟩
    | none => ∃ failure, host.load definition = ⟨.error failure, host⟩ := by
  unfold Definition.loadedTheme ThemeHost.load
  cases definition.compile host.config with
  | error reason => exact ⟨_, rfl⟩
  | ok result =>
    cases htheme : result.theme with
    | none =>
      simp only [htheme]
      exact ⟨_, rfl⟩
    | some theme => simp only [htheme]

theorem Follows.after (h : host.Follows config history) (request : HostRequest) :
    (host.after request).Follows config (history.after config request) := by
  cases request with
  | load definition =>
    have hload := load_eq host definition
    rw [h.config_eq] at hload
    simp only [ThemeHost.after, History.after]
    cases htheme : definition.loadedTheme config with
    | none =>
      rw [htheme] at hload
      obtain ⟨failure, hfailure⟩ := hload
      simpa only [hfailure] using h
    | some theme =>
      rw [htheme] at hload
      simpa only [hload] using h.activate theme
  | activate theme => exact h.activate theme
  | deactivate => exact h.deactivate
  | ask q => exact h.resolve q
  | askNumber number q =>
    simp only [ThemeHost.after, History.after]
    cases hanswer : host.resolveWith number q with
    | none => exact h
    | some answer => exact h.resolveWith hanswer

theorem Follows.run (h : host.Follows config history) (requests : List HostRequest) :
    (host.run requests).Follows config (requests.foldl (History.after config) history) := by
  induction requests generalizing host history with
  | nil => exact h
  | cons request rest ih => exact ih (h.after request)

/-! ### Answers -/

theorem Follows.props_resolveWith (h : host.Follows config history) (number : Nat) (q : Query) :
    (host.resolveWith number q).map HostAnswer.props =
      history.themes[number]?.map fun theme =>
        ((Resolver.ofTheme theme config).resolve q).props := by
  cases htheme : history.themes[number]? with
  | none =>
    have hge := List.getElem?_eq_none_iff.1 htheme
    rw [← h.length_eq] at hge
    simp [ThemeHost.resolveWith, List.getElem?_eq_none hge]
  | some theme =>
    obtain ⟨resolver, hresolver, hserves⟩ := h.exists_resolver htheme
    simp [ThemeHost.resolveWith, hresolver, hserves.props_resolve]

theorem Follows.props_resolve (h : host.Follows config history) (q : Query) :
    (host.resolve q).props =
      match history.current with
      | some theme => ((Resolver.ofTheme theme config).resolve q).props
      | none => ∅ := by
  rw [h.active]
  unfold ThemeHost.resolve
  cases hactive : host.active with
  | none => rfl
  | some number =>
    have hprops := h.props_resolveWith number q
    have hlt := h.active_lt number hactive
    rw [List.getElem?_eq_getElem hlt, Option.map_some, Option.map_eq_some_iff] at hprops
    obtain ⟨answer, hanswer, hprops⟩ := hprops
    simp only [Option.bind_some, hanswer, Option.getD_some, hprops,
      List.getElem?_eq_getElem hlt]

theorem Follows.themeName_eq (h : host.Follows config history) :
    host.themeName = history.current.map Theme.name := by
  rw [h.active, themeName, activeResolver]
  cases hactive : host.active with
  | none => rfl
  | some number =>
    have hlt := h.active_lt number hactive
    have htheme := List.getElem?_eq_getElem hlt
    obtain ⟨resolver, hresolver, hserves⟩ := h.exists_resolver htheme
    simp only [Option.bind_some, hresolver, htheme, Option.map_some, hserves.1.themeName_eq]
    rfl

/-- A definition that gives a theme is loaded, and one that does not fails to load and leaves the
host as it is. -/
theorem Follows.load_eq (h : host.Follows config history) (definition : Definition) :
    match definition.loadedTheme config with
    | some theme => host.load definition = ⟨.ok history.themes.length, host.activate theme⟩
    | none => ∃ failure, host.load definition = ⟨.error failure, host⟩ := by
  have hload := ThemeHost.load_eq host definition
  rw [h.config_eq, h.length_eq] at hload
  exact hload

end

/-- **A host answers by its history.**  After any run of loads, activations, deactivations and
queries, to the active resolver and to older ones, the host answers a query as a new resolver for
the current theme of the history would, and with no properties where there is none.  Its theme is
named accordingly.  A load that succeeds hands out the next resolver; one that fails leaves the
host as it is, with all its resolvers and the answers that they keep.  Each resolver handed out
answers as a new one for its theme. -/
theorem run_answers_as_history (config : Config) (requests : List HostRequest) :
    let host := (start config).run requests
    let history := History.ofRequests config requests
    (∀ q, (host.resolve q).props =
      match history.current with
      | some theme => ((Resolver.ofTheme theme config).resolve q).props
      | none => ∅) ∧
    host.themeName = history.current.map Theme.name ∧
    (∀ definition : Definition,
      match definition.loadedTheme config with
      | some theme => host.load definition = ⟨.ok history.themes.length, host.activate theme⟩
      | none => ∃ failure, host.load definition = ⟨.error failure, host⟩) ∧
    ∀ (number : Nat) q, (host.resolveWith number q).map HostAnswer.props =
      history.themes[number]?.map fun theme =>
        ((Resolver.ofTheme theme config).resolve q).props := by
  intro host history
  have h : host.Follows config history := (follows_start config).run requests
  exact ⟨h.props_resolve, h.themeName_eq, h.load_eq, h.props_resolveWith⟩

end ThemeHost

end StyleCascade
