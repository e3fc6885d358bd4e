import StyleCascade.Proofs.Answers

/-!
# Runs of a resolver

A resolver is asked queries and told to forget its answers, in any order and any number of
times.  What it answers along the way is what the rules of its theme answer on their own: that
answers are kept, and that the rules are kept in another order, is not seen.

* `Request`, `Resolver.run`, `Resolver.answers` — a run and what it answers.
* `Resolver.keepsTruth_run` — the invariant holds along every run.
* `Resolver.answers_eq_map_plainAnswer` — a run answers as the theme does without any memory.
-/

namespace StyleCascade

/-- What a resolver is asked to do. -/
inductive Request where
  /-- To answer a query. -/
  | ask (q : Query)
  /-- To forget the answers kept. -/
  | clear

/-- The answer of a theme without any memory: the properties that its rules give in the order in
which the theme has them, none where a rule fails, and nothing at all where no query is asked. -/
def Theme.plainAnswer (theme : Theme) : Request → Option Props
  | .ask q => some (propsOf (resolve theme.tables theme.rules q))
  | .clear => none

namespace Resolver

/-- The resolver after a request. -/
def after (r : Resolver) : Request → Resolver
  | .ask q => (r.resolve q).resolver
  | .clear => r.clear

/-- The resolver after a list of requests. -/
def run (r : Resolver) (requests : List Request) : Resolver := requests.foldl after r

/-- The answer to a request. -/
def reply (r : Resolver) : Request → Option Props
  | .ask q => some (r.resolve q).props
  | .clear => none

/-- The answers along a run, one for each request. -/
def answers (r : Resolver) : List Request → List (Option Props)
  | [] => []
  | request :: rest => r.reply request :: (r.after request).answers rest

/-- What the rules alone give for a request. -/
def computed (r : Resolver) : Request → Option Props
  | .ask q => some (propsOf (r.compute q))
  | .clear => none

@[simp] theorem run_nil (r : Resolver) : r.run [] = r := rfl

@[simp] theorem run_cons (r : Resolver) (request : Request) (rest : List Request) :
    r.run (request :: rest) = (r.after request).run rest := rfl

/-! ## What a run keeps -/

theorem keepsTruth_after {r : Resolver} (h : r.KeepsTruth) (request : Request) :
    (r.after request).KeepsTruth := by
  cases request with
  | ask q => exact keepsTruth_resolve h q
  | clear => exact keepsTruth_clear r

theorem sameTheme_after (r : Resolver) (request : Request) : r.SameTheme (r.after request) := by
  cases request with
  | ask q => exact sameTheme_resolve r q
  | clear => exact sameTheme_clear r

theorem keepsTruth_run {r : Resolver} (h : r.KeepsTruth) (requests : List Request) :
    (r.run requests).KeepsTruth := by
  induction requests generalizing r with
  | nil => exact h
  | cons request rest ih => exact ih (keepsTruth_after h request)

theorem sameTheme_run (r : Resolver) (requests : List Request) : r.SameTheme (r.run requests) := by
  induction requests generalizing r with
  | nil => exact .refl r
  | cons request rest ih => exact (sameTheme_after r request).trans (ih (r.after request))

/-! ## What a run answers -/

/-- The rules of a resolver, in the order of falling specificity, give what those of its theme
give in theirs.  If it is to tell which rules an answer comes from, it does so in its own order. -/
theorem compute_ofTheme {theme : Theme} (config : Config) {q : Query} {props : Props}
    (h : StyleCascade.resolve theme.tables theme.rules q = .ok props) :
    (ofTheme theme config).compute q =
      .ok (if config.debug then
          withSources q (bySpecificity (theme.rules.filter (Rule.selects q))) props
        else props) := by
  unfold StyleCascade.resolve at h
  cases hfound : matching q theme.rules with
  | error reason =>
    rw [hfound] at h
    cases h
  | ok found =>
    rw [hfound] at h
    obtain ⟨-, rfl⟩ := matching_eq_ok_iff.1 hfound
    have hprops : finish theme.tables q (theme.rules.filter (Rule.selects q)) = props :=
      Except.ok.inj h
    simp only [compute_eq, ofTheme, matching_bySpecificity_of_ok hfound, Except.map, ← hprops,
      finish, ← filter_bySpecificity, cascade_filter_bySpecificity]

theorem compute_ofTheme_of_ok {theme : Theme} {config : Config} (hdebug : config.debug = false)
    {q : Query} {props : Props} (h : StyleCascade.resolve theme.tables theme.rules q = .ok props) :
    (ofTheme theme config).compute q = .ok props := by
  rw [compute_ofTheme config h, hdebug, if_neg Bool.false_ne_true]

theorem compute_ofTheme_of_error {theme : Theme} (config : Config) {q : Query} {reason : String}
    (h : StyleCascade.resolve theme.tables theme.rules q = .error reason) :
    ∃ reason', (ofTheme theme config).compute q = .error reason' := by
  unfold StyleCascade.resolve at h
  cases hfound : matching q theme.rules with
  | error reason' =>
    obtain ⟨first, hfirst⟩ := matching_bySpecificity_of_error hfound
    exact ⟨first, by simp only [compute_eq, ofTheme, hfirst, Except.map]⟩
  | ok found =>
    rw [hfound] at h
    cases h

theorem propsOf_compute_ofTheme {theme : Theme} {config : Config} (hdebug : config.debug = false)
    (q : Query) :
    propsOf ((ofTheme theme config).compute q) =
      propsOf (StyleCascade.resolve theme.tables theme.rules q) := by
  cases hresolve : StyleCascade.resolve theme.tables theme.rules q with
  | ok props => rw [compute_ofTheme_of_ok hdebug hresolve]
  | error reason =>
    obtain ⟨reason', hcompute⟩ := compute_ofTheme_of_error config hresolve
    rw [hcompute, propsOf, propsOf]

/-- A resolver that keeps the truth answers a request with what its rules give. -/
theorem reply_eq_computed {r : Resolver} (h : r.KeepsTruth) (request : Request) :
    r.reply request = r.computed request := by
  cases request with
  | ask q => exact congrArg some (props_resolve h q)
  | clear => rfl

theorem SameTheme.computed_eq {r r' : Resolver} (h : r.SameTheme r') :
    r'.computed = r.computed := by
  funext request
  cases request with
  | ask q => rw [computed, computed, h.compute_eq]
  | clear => rfl

/-- Along a run nothing is answered that the rules do not give. -/
theorem answers_eq_map_computed {r : Resolver} (h : r.KeepsTruth) (requests : List Request) :
    r.answers requests = requests.map r.computed := by
  induction requests generalizing r with
  | nil => rfl
  | cons request rest ih =>
    rw [answers, List.map_cons, reply_eq_computed h, ih (keepsTruth_after h request),
      (sameTheme_after r request).computed_eq]

theorem props_resolve_run (theme : Theme) (config : Config) (before : List Request) (q : Query) :
    (((ofTheme theme config).run before).resolve q).props =
      propsOf ((ofTheme theme config).compute q) := by
  rw [props_resolve (keepsTruth_run (keepsTruth_ofTheme theme config) before),
    (sameTheme_run _ before).compute_eq]

theorem computed_ofTheme {theme : Theme} {config : Config} (hdebug : config.debug = false) :
    (ofTheme theme config).computed = theme.plainAnswer := by
  funext request
  cases request with
  | ask q => rw [computed, Theme.plainAnswer, propsOf_compute_ofTheme hdebug]
  | clear => rfl

theorem answers_eq_map_of_sameTheme {theme : Theme} {config : Config}
    (hdebug : config.debug = false) {r : Resolver} (hr : (ofTheme theme config).SameTheme r)
    (hkeeps : r.KeepsTruth) (requests : List Request) :
    r.answers requests = requests.map theme.plainAnswer := by
  rw [answers_eq_map_computed hkeeps, hr.computed_eq, computed_ofTheme hdebug]

/-- **A run answers as the theme does without any memory.**  Whatever a new resolver is asked and
in whatever order, and however many answers it may keep, each answer is the one of the rules of
its theme.  A query that the rules cannot answer gets no properties, and the answers kept stay
as they are, in their order. -/
theorem answers_eq_map_plainAnswer (theme : Theme) (config : Config)
    (hdebug : config.debug = false) (requests : List Request) :
    (ofTheme theme config).answers requests = requests.map theme.plainAnswer ∧
      ∀ before q reason, StyleCascade.resolve theme.tables theme.rules q = .error reason →
        let r := (ofTheme theme config).run before
        (r.resolve q).props = ∅ ∧ (r.resolve q).resolver.cache = r.cache := by
  have hnew := keepsTruth_ofTheme theme config
  refine ⟨answers_eq_map_of_sameTheme hdebug (.refl _) hnew requests, ?_⟩
  intro before q reason herror r
  have hkeeps : r.KeepsTruth := keepsTruth_run hnew before
  have hcompute : ∃ reason', r.compute q = .error reason' := by
    rw [(sameTheme_run _ before).compute_eq]
    exact compute_ofTheme_of_error config herror
  obtain ⟨reason', hcompute⟩ := hcompute
  constructor
  · rw [props_resolve hkeeps, hcompute, propsOf]
  · rw [resolver_resolve_of_error hkeeps hcompute]

/-- An element that has gone away: the rule about it fails, and the answer that was kept before
for the component without an element stays. -/
theorem answers_eq_map_plainAnswer_detached :
    let theme : Theme :=
      { name := "plain"
        rules := [
          { selector := "button[type]"
            target := { component := "button", attributes := [⟨"type", .present, none⟩] } }] }
    let gone : Query := { component := "button", element := some ⟨fun _ => .error "detached"⟩ }
    let before : List Request := [.ask { component := "button" }]
    let r := (ofTheme theme {}).run before
    ({} : Config).debug = false ∧
      StyleCascade.resolve theme.tables theme.rules gone = .error "detached" ∧
      (ofTheme theme {}).answers before = before.map theme.plainAnswer ∧
      r.cache.entries.map Prod.fst = [⟨"button", "", "", "", false⟩] ∧
      (r.resolve gone).props = ∅ ∧ (r.resolve gone).resolver.cache = r.cache := by
  intro theme gone before r
  have h := answers_eq_map_plainAnswer theme {} rfl before
  exact ⟨rfl, rfl, h.1, by decide +kernel, h.2 before gone "detached" rfl⟩

end Resolver

end StyleCascade
