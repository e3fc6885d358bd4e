import Mathlib.Data.List.Dedup
import StyleCascade.Proofs.DuplicateTargets
import StyleCascade.Proofs.LenientReading

/-!
# Keys of targets

Selectors with one target are found by a key, the parts of the target joined by colons.  Tags and
states hold no colons, but values in quotes may: so the key tells where the context and the
identifier are, but not always where the one ends and the other begins.

* `Aim` — the parts of a target that the key is made of.
* `classOf`, `ClosesClass` — the items of a list with one image, and the last one of several.
* `Aim.key_eq_iff` — what two targets with one key have in common.
* `Definition.ReportsExactly` — one finding for every aim that several selectors share.
* `Definition.lookingLike` — the selectors that cannot be told apart by their keys;
  `mem_lookingLike_iff`.
* `reportsExactly_of_colon_not_mem` — duplicates are reported exactly where contexts or identifiers
  hold no colons.
* `reportsExactly_iff` — when it is so in general.
-/

namespace StyleCascade

open StyleCascade.Text StyleCascade.Selector

/-! ## Classes of items -/

section Classes

variable {α β γ : Type} [DecidableEq β] [DecidableEq γ] {f : α → β} {g : α → γ} {l : List α}

/-- The items of a list with a given image, in order. -/
def classOf (f : α → β) (l : List α) (b : β) : List α := l.filter (f · == b)

/-- An item is the last one of a class of several. -/
def ClosesClass (f : α → β) (l : List α) (a : α) : Prop :=
  (classOf f l (f a)).getLast? = some a ∧ 1 < (classOf f l (f a)).length

theorem mem_classOf {a : α} {b : β} : a ∈ classOf f l b ↔ a ∈ l ∧ f a = b := by
  rw [classOf, List.mem_filter, beq_iff_eq]

/-- A class of several has a last item, and this closes it. -/
theorem exists_closesClass {b : β} (h : 1 < (classOf f l b).length) :
    ∃ t, (classOf f l b).getLast? = some t ∧ f t = b ∧ ClosesClass f l t := by
  have hne : classOf f l b ≠ [] := List.ne_nil_of_length_pos (by omega)
  have hlast := List.getLast?_eq_some_getLast hne
  obtain ⟨_, himage⟩ := mem_classOf.1 (List.getLast_mem hne)
  refine ⟨_, hlast, himage, ?_⟩
  rw [ClosesClass, himage]
  exact ⟨hlast, h⟩

theorem ClosesClass.mem {a : α} (h : ClosesClass f l a) : a ∈ l :=
  (mem_classOf.1 (List.mem_of_getLast? h.1)).1

theorem getLast?_filter {p : α → Bool} {a : α} (h : l.getLast? = some a) (ha : p a = true) :
    (l.filter p).getLast? = some a := by
  obtain ⟨init, rfl⟩ := List.getLast?_eq_some_iff.1 h
  rw [List.filter_append, List.filter_singleton, ha]
  exact List.getLast?_concat

section
variable (hfine : ∀ a b, g a = g b → f a = f b)
include hfine

/-- Where one image decides the other, its classes are parts of the classes of the other. -/
theorem classOf_eq_filter (a : α) :
    classOf g l (g a) = (classOf f l (f a)).filter (g · == g a) := by
  rw [classOf, classOf, List.filter_filter]
  refine List.filter_congr fun b _ => ?_
  by_cases h : g b = g a
  · simp [h, hfine b a h]
  · simp [h]

theorem length_classOf_le (a : α) :
    (classOf g l (g a)).length ≤ (classOf f l (f a)).length := by
  rw [classOf_eq_filter hfine]
  exact List.length_filter_le _ _

/-- **Coarse and fine classes.**  They are closed by the same items if and only if in every coarse
class of several items exactly those share their fine image that have the one of the last item. -/
theorem closesClass_iff_iff :
    (∀ a, ClosesClass f l a ↔ ClosesClass g l a) ↔
      ∀ a ∈ l, 1 < (classOf f l (f a)).length →
        (1 < (classOf g l (g a)).length ↔
          (classOf f l (f a)).getLast?.map g = some (g a)) := by
  constructor
  · intro hsame a _ hseveral
    obtain ⟨t, hlast, _, hcloses⟩ := exists_closesClass hseveral
    have hclosed : ClosesClass g l t := (hsame t).1 hcloses
    rw [hlast, Option.map_some, Option.some.injEq]
    constructor
    · intro hshared
      obtain ⟨u, _, himage, hu⟩ := exists_closesClass hshared
      -- `u` closes its coarse class too, and this is the class of `a`
      have hcoarse := ((hsame u).2 hu).1
      rw [hfine u a himage, hlast] at hcoarse
      rw [Option.some.inj hcoarse, himage]
    · intro himage
      rw [← himage]
      exact hclosed.2
  · intro hshared a
    have hlast : ∀ t, (classOf f l (f t)).getLast? = some t →
        (classOf g l (g t)).getLast? = some t := by
      intro t ht
      rw [classOf_eq_filter hfine]
      exact getLast?_filter ht (beq_self_eq_true (g t))
    constructor
    · intro hcloses
      refine ⟨hlast a hcloses.1, (hshared a hcloses.mem hcloses.2).2 ?_⟩
      rw [hcloses.1]
      rfl
    · intro hcloses
      have hcoarse := Nat.lt_of_lt_of_le hcloses.2 (length_classOf_le hfine a)
      obtain ⟨t, ht, _, hclosed⟩ := exists_closesClass hcoarse
      have himage := (hshared a hcloses.mem hcoarse).1 hcloses.2
      rw [ht, Option.map_some, Option.some.injEq] at himage
      -- the last item of the coarse class is the last one of the fine class as well
      have hsame := hlast t hclosed.1
      rw [himage, hcloses.1] at hsame
      rw [Option.some.inj hsame]
      exact hclosed

end

/-- Where two images tell the same items apart, their classes are closed by the same items. -/
theorem closesClass_iff_of_eq_iff (h : ∀ a ∈ l, ∀ b ∈ l, f a = f b ↔ g a = g b) (a : α) :
    ClosesClass f l a ↔ ClosesClass g l a := by
  have hclass : a ∈ l → classOf f l (f a) = classOf g l (g a) := by
    intro ha
    rw [classOf, classOf]
    refine List.filter_congr fun b hb => ?_
    rw [Bool.eq_iff_iff, beq_iff_eq, beq_iff_eq]
    exact h b hb a ha
  constructor
  · intro hcloses
    rw [ClosesClass, ← hclass hcloses.mem]
    exact hcloses
  · intro hcloses
    rw [ClosesClass, hclass hcloses.mem]
    exact hcloses

/-- The last items of classes of several are listed without repetition. -/
theorem nodup_map_getLast?_classOf {keys : List β} (hnodup : keys.Nodup)
    (hseveral : ∀ b ∈ keys, 1 < (classOf f l b).length) :
    (keys.map fun b => (classOf f l b).getLast?).Nodup := by
  refine hnodup.map_on fun b hb b' hb' heq => ?_
  obtain ⟨t, hlast, himage, _⟩ := exists_closesClass (hseveral b hb)
  obtain ⟨t', hlast', himage', _⟩ := exists_closesClass (hseveral b' hb')
  have hsame : (classOf f l b).getLast? = (classOf f l b').getLast? := heq
  rw [hlast, hlast'] at hsame
  rw [← himage, ← himage', Option.some.inj hsame]

/-- They are the items that close a class. -/
theorem mem_map_getLast?_classOf {keys : List β}
    (hkeys : ∀ b, b ∈ keys ↔ 1 < (classOf f l b).length) {found : Option α} :
    (found ∈ keys.map fun b => (classOf f l b).getLast?) ↔
      ∃ a, found = some a ∧ ClosesClass f l a := by
  constructor
  · intro h
    obtain ⟨b, hb, rfl⟩ := List.mem_map.1 h
    obtain ⟨t, hlast, _, hcloses⟩ := exists_closesClass ((hkeys b).1 hb)
    exact ⟨t, hlast, hcloses⟩
  · rintro ⟨a, rfl, hlast, hseveral⟩
    exact List.mem_map.2 ⟨f a, (hkeys (f a)).2 hseveral, hlast⟩

end Classes

/-! ## Aims -/

/-- What a rule aims at, its attribute clauses aside. -/
structure Aim where
  /-- The tag of the component. -/
  component : String
  /-- The context. -/
  context : Option String
  /-- The identifier. -/
  identifier : Option String
  /-- The state. -/
  state : Option String
  deriving Repr, DecidableEq

/-- A target without its attribute clauses. -/
def Target.aim (target : Target) : Aim :=
  ⟨target.component, target.context, target.identifier, target.state⟩

namespace Aim

/-- The parts joined by colons; a missing part is left empty. -/
def key (a : Aim) : String :=
  ":".intercalate [a.component, a.context.getD "", a.identifier.getD "", a.state.getD ""]

/-- The context and the identifier as they stand in the key. -/
def middle (a : Aim) : List Char :=
  (a.context.getD "").toList ++ ':' :: (a.identifier.getD "").toList

/-- The parts are such as a reader gives: none of them is empty, and neither a tag that was read
nor the state holds a colon. -/
structure IsRead (fallback : String) (a : Aim) : Prop where
  component : a.component = fallback ∨ ':' ∉ a.component.toList
  context : ∀ name ∈ a.context, name ≠ ""
  identifier : ∀ name ∈ a.identifier, name ≠ ""
  state : ∀ name ∈ a.state, name ≠ "" ∧ ':' ∉ name.toList

theorem toList_key (a : Aim) :
    a.key.toList = a.component.toList ++ ':' :: (a.middle ++ ':' :: (a.state.getD "").toList) := by
  simp [key, middle, String.intercalate_cons_cons]

end Aim

/-- The key under which a target is found is the one of its aim. -/
theorem Target.key_eq_key_aim (target : Target) : target.key = target.aim.key := by
  simp [Target.key, Target.aim, Aim.key, String.intercalate_cons_cons, String.append_assoc]

/-! ### Texts with a colon -/

theorem append_colon_inj {u u' s s' : List Char} (hu : ':' ∉ u) (hu' : ':' ∉ u')
    (h : u ++ ':' :: s = u' ++ ':' :: s') : u = u' ∧ s = s' := by
  have hfront : ∀ {w : List Char}, ':' ∉ w → ∀ t, (w ++ ':' :: t).takeWhile (· != ':') = w := by
    intro w hw t
    refine takeWhile_append_of_stopsAt (fun c hc => ?_) (stopsAt_cons.2 (by decide))
    rw [bne_iff_ne]
    rintro rfl
    exact hw hc
  have hsame : u = u' := by rw [← hfront hu s, h, hfront hu' s']
  subst hsame
  exact ⟨rfl, (List.cons.inj (List.append_cancel_left h)).2⟩

theorem colon_append_inj {u u' s s' : List Char} (hs : ':' ∉ s) (hs' : ':' ∉ s')
    (h : u ++ ':' :: s = u' ++ ':' :: s') : u = u' ∧ s = s' := by
  have hreverse : s.reverse ++ ':' :: u.reverse = s'.reverse ++ ':' :: u'.reverse := by
    simpa using congrArg List.reverse h
  obtain ⟨hbehind, hfront⟩ := append_colon_inj (by simpa using hs) (by simpa using hs') hreverse
  exact ⟨List.reverse_inj.1 hfront, List.reverse_inj.1 hbehind⟩

/-- Where no part is empty, an empty text stands for a missing part only. -/
theorem eq_of_getD_eq {part part' : Option String} (hpart : ∀ name ∈ part, name ≠ "")
    (hpart' : ∀ name ∈ part', name ≠ "") (h : part.getD "" = part'.getD "") : part = part' := by
  cases part with
  | none =>
    cases part' with
    | none => rfl
    | some name' => exact absurd h.symm (hpart' name' rfl)
  | some name =>
    cases part' with
    | none => exact absurd h (hpart name rfl)
    | some name' => exact congrArg some h

theorem getD_toList_inj {part part' : Option String} (hpart : ∀ name ∈ part, name ≠ "")
    (hpart' : ∀ name ∈ part', name ≠ "")
    (h : (part.getD "").toList = (part'.getD "").toList) : part = part' :=
  eq_of_getD_eq hpart hpart' (String.toList_inj.1 h)

theorem colon_not_mem_getD {part : Option String} (h : ∀ name ∈ part, ':' ∉ name.toList) :
    ':' ∉ (part.getD "").toList := by
  cases part with
  | none => exact List.not_mem_nil
  | some name => exact h name rfl

section
variable {fallback : String} {a b : Aim}

theorem Aim.IsRead.colon_not_mem (h : a.IsRead fallback) (hfallback : ':' ∉ fallback.toList) :
    ':' ∉ a.component.toList := by
  rcases h.component with heq | hcolon
  · rw [heq]
    exact hfallback
  · exact hcolon

/-- **One key.**  Aims that a reader gave have one key if and only if they have the same component
and state and their contexts and identifiers, joined by a colon, give one text. -/
theorem Aim.key_eq_iff (hfallback : ':' ∉ fallback.toList) (ha : a.IsRead fallback)
    (hb : b.IsRead fallback) :
    a.key = b.key ↔ a.component = b.component ∧ a.middle = b.middle ∧ a.state = b.state := by
  constructor
  · intro h
    have hkeys := congrArg String.toList h
    rw [Aim.toList_key, Aim.toList_key] at hkeys
    obtain ⟨hcomponent, hrest⟩ :=
      append_colon_inj (ha.colon_not_mem hfallback) (hb.colon_not_mem hfallback) hkeys
    obtain ⟨hmiddle, hstate⟩ := colon_append_inj
      (colon_not_mem_getD fun name hname => (ha.state name hname).2)
      (colon_not_mem_getD fun name hname => (hb.state name hname).2) hrest
    refine ⟨String.toList_inj.1 hcomponent, hmiddle, ?_⟩
    exact getD_toList_inj (fun name hname => (ha.state name hname).1)
      (fun name hname => (hb.state name hname).1) hstate
  · rintro ⟨hcomponent, hmiddle, hstate⟩
    rw [← String.toList_inj, Aim.toList_key, Aim.toList_key, hcomponent, hmiddle, hstate]

/-- Where the contexts or the identifiers hold no colons, the key tells the aim. -/
theorem Aim.eq_of_key_eq (hfallback : ':' ∉ fallback.toList) (ha : a.IsRead fallback)
    (hb : b.IsRead fallback)
    (hcolons : ((∀ name ∈ a.context, ':' ∉ name.toList) ∧ ∀ name ∈ b.context, ':' ∉ name.toList) ∨
      (∀ name ∈ a.identifier, ':' ∉ name.toList) ∧ ∀ name ∈ b.identifier, ':' ∉ name.toList)
    (h : a.key = b.key) : a = b := by
  obtain ⟨hcomponent, hmiddle, hstate⟩ := (Aim.key_eq_iff hfallback ha hb).1 h
  have hparts : (a.context.getD "").toList = (b.context.getD "").toList ∧
      (a.identifier.getD "").toList = (b.identifier.getD "").toList := by
    rcases hcolons with ⟨hcontext, hcontext'⟩ | ⟨hidentifier, hidentifier'⟩
    · exact append_colon_inj (colon_not_mem_getD hcontext) (colon_not_mem_getD hcontext') hmiddle
    · exact colon_append_inj (colon_not_mem_getD hidentifier) (colon_not_mem_getD hidentifier')
        hmiddle
  have hcontext := getD_toList_inj ha.context hb.context hparts.1
  have hidentifier := getD_toList_inj ha.identifier hb.identifier hparts.2
  obtain ⟨component, context, identifier, state⟩ := a
  exact congr (congr (congr (congrArg Aim.mk hcomponent) hcontext) hidentifier) hstate

end

/-! ### What a reader gives -/

namespace Selector

theorem ne_nil_of_equalsValue {attr : String} {before : Option Char} {s value rest : List Char}
    (h : equalsValue attr before s = some (value, rest)) : value ≠ [] := by
  cases s with
  | nil => cases h
  | cons c cs =>
    by_cases hc : c = '['
    · subst hc
      rw [equalsValue_bracket] at h
      obtain ⟨_, _, hclosed⟩ := Option.bind_eq_some_iff.1 h
      obtain ⟨⟨text, _⟩, _, hafter⟩ := Option.bind_eq_some_iff.1 hclosed
      obtain ⟨_, _, hvalue⟩ := Option.bind_eq_some_iff.1 hafter
      rw [Option.ite_none_left_eq_some] at hvalue
      obtain ⟨hne, heq⟩ := hvalue
      obtain ⟨rfl, _⟩ := Prod.mk.inj (Option.some.inj heq)
      simpa using hne
    · rw [equalsValue_of_ne hc] at h
      cases h

theorem ofList_ne_empty {w : List Char} (h : w ≠ []) : String.ofList w ≠ "" := by
  rw [Ne, ← String.toList_inj, String.toList_ofList]
  exact h

/-- The aim of a target that the lenient reader gives. -/
theorem isRead_targetOfChars (fallback : String) (s : List Char) :
    (targetOfChars fallback s).aim.IsRead fallback := by
  have hvalue : ∀ attr, ∀ name ∈ (find? (equalsValue attr) (trim s)).map String.ofList,
      name ≠ "" := by
    intro attr name hname
    obtain ⟨value, hfound, rfl⟩ := Option.map_eq_some_iff.1 hname
    rw [find?_eq_findFrom] at hfound
    obtain ⟨_, _, _, hrecognized⟩ := exists_of_findFrom hfound
    exact ofList_ne_empty (ne_nil_of_equalsValue hrecognized)
  refine ⟨?_, hvalue contextAttribute, hvalue identifierAttribute, ?_⟩
  · show (leadingTag? (trim s)).getD fallback = fallback ∨
      ':' ∉ ((leadingTag? (trim s)).getD fallback).toList
    rw [leadingTag?]
    split
    · exact .inl rfl
    · refine .inr ?_
      rw [Option.getD_some, String.toList_ofList]
      exact not_mem_of_isName (fun c hc => isName_of_isWord (mem_takeWhile hc)) (by decide)
  · intro name hname
    obtain ⟨word, hfound, rfl⟩ := Option.map_eq_some_iff.1 hname
    rw [find?_eq_findFrom] at hfound
    obtain ⟨_, _, _, hrecognized⟩ := exists_of_findFrom hfound
    have hword := (stateName_eq_some_iff.1 hrecognized).1
    refine ⟨ofList_ne_empty hword.1, ?_⟩
    rw [String.toList_ofList]
    exact not_mem_of_isName hword.2 (by decide)

end Selector

/-! ## Selectors that share an aim -/

/-- The aim of the rule of a selector. -/
def aimOf (config : Config) (selector : String) : Aim :=
  (ruleOf config (selector, .null)).target.aim

/-- The key of the target of a selector. -/
def keyOf (config : Config) (selector : String) : String := (aimOf config selector).key

theorem target_ruleOf (config : Config) (selector : String) :
    (ruleOf config (selector, .null)).target =
      lenientTarget config.knownContexts config.defaultComponent selector := rfl

theorem isRead_aimOf (config : Config) (selector : String) :
    (aimOf config selector).IsRead config.defaultComponent :=
  isRead_targetOfChars config.defaultComponent (normalize config.knownContexts selector).toList

namespace Definition

/-- The selectors whose rules leave nothing to the element. -/
def plainSelectors (definition : Definition) (config : Config) : List String :=
  definition.selectors.filter fun selector =>
    (ruleOf config (selector, .null)).target.attributes.isEmpty

/-- The plain selectors with a given aim, in order. -/
def aimedAt (definition : Definition) (config : Config) (aim : Aim) : List String :=
  classOf (aimOf config) (definition.plainSelectors config) aim

/-- The plain selectors that look as if they had a given aim, in order: joined by colons, the parts
of their own aim give the same text. -/
def lookingLike (definition : Definition) (config : Config) (aim : Aim) : List String :=
  (definition.plainSelectors config).filter fun selector => (aimOf config selector).key == aim.key

/-- The aims that several plain selectors share. -/
def sharedAims (definition : Definition) (config : Config) : List Aim :=
  ((definition.plainSelectors config).map (aimOf config)).dedup.filter fun aim =>
    1 < (definition.aimedAt config aim).length

/-- **Duplicates are reported exactly**: there is one finding for every aim that several plain
selectors share, about the last one of them, and no other finding. -/
def ReportsExactly (definition : Definition) (config : Config) : Prop :=
  ((Check.duplicates definition config).map Finding.selector).Perm
    ((definition.sharedAims config).map fun aim => (definition.aimedAt config aim).getLast?)

end Definition

section
variable {definition : Definition} {config : Config}

theorem keyedSelectors_eq (definition : Definition) (config : Config) :
    keyedSelectors config definition.selectors =
      (definition.plainSelectors config).map fun s => (keyOf config s, s) := by
  rw [keyedSelectors, Definition.plainSelectors, ← List.filterMap_eq_map, List.filterMap_filter]
  refine congrArg (List.filterMap · _) (funext fun selector => ?_)
  rw [target_ruleOf, Function.comp_apply, keyOf, aimOf, target_ruleOf, ← Target.key_eq_key_aim]

/-- A group that is reported holds the plain selectors that share a key. -/
theorem mem_duplicateGroups_iff {key : String} {group : List String} :
    (key, group) ∈ definition.duplicateGroups config ↔
      group = classOf (keyOf config) (definition.plainSelectors config) key ∧ 1 < group.length := by
  have hgroup := Mapping.getD_get?_group (keyedSelectors config definition.selectors) key
  have hsnd : ((keyedSelectors config definition.selectors).filter (·.1 == key)).map Prod.snd =
      classOf (keyOf config) (definition.plainSelectors config) key := by
    rw [keyedSelectors_eq, List.filter_map, List.map_map]
    exact List.map_id _
  rw [hsnd] at hgroup
  rw [Definition.duplicateGroups, List.mem_filter, ← Mapping.get?_eq_some_iff, decide_eq_true_eq,
    ← hgroup]
  refine and_congr_left fun hseveral => ?_
  cases (Mapping.group (keyedSelectors config definition.selectors)).get? key with
  | some found => exact Option.some.injEq found group ▸ eq_comm
  | none =>
    constructor
    · intro h
      cases h
    · intro h
      rw [h] at hseveral
      exact absurd hseveral (by decide)

/-- The keys under which groups are reported. -/
theorem mem_keys_duplicateGroups_iff {key : String} :
    key ∈ (definition.duplicateGroups config).map Prod.fst ↔
      1 < (classOf (keyOf config) (definition.plainSelectors config) key).length := by
  constructor
  · intro h
    obtain ⟨⟨_, group⟩, hgroup, rfl⟩ := List.mem_map.1 h
    obtain ⟨rfl, hseveral⟩ := mem_duplicateGroups_iff.1 hgroup
    exact hseveral
  · intro h
    exact List.mem_map.2 ⟨(key, _), mem_duplicateGroups_iff.2 ⟨rfl, h⟩, rfl⟩

/-- The findings are about the last selector of each group. -/
theorem map_selector_duplicates (definition : Definition) (config : Config) :
    (Check.duplicates definition config).map Finding.selector =
      ((definition.duplicateGroups config).map Prod.fst).map fun key =>
        (classOf (keyOf config) (definition.plainSelectors config) key).getLast? := by
  rw [duplicates_eq, List.map_map, List.map_map]
  refine List.map_congr_left fun ⟨key, group⟩ hgroup => ?_
  obtain ⟨rfl, _⟩ := mem_duplicateGroups_iff.1 hgroup
  rfl

theorem mem_sharedAims_iff {aim : Aim} :
    aim ∈ definition.sharedAims config ↔
      1 < (classOf (aimOf config) (definition.plainSelectors config) aim).length := by
  rw [Definition.sharedAims, List.mem_filter, List.mem_dedup, decide_eq_true_eq]
  refine and_iff_right_of_imp fun hseveral => ?_
  obtain ⟨t, _, rfl, hcloses⟩ := exists_closesClass hseveral
  exact List.mem_map.2 ⟨t, hcloses.mem, rfl⟩

/-- Duplicates are reported exactly if the selectors that close a group are those that close the
class of an aim. -/
theorem reportsExactly_iff_closesClass :
    definition.ReportsExactly config ↔
      ∀ s, ClosesClass (keyOf config) (definition.plainSelectors config) s ↔
        ClosesClass (aimOf config) (definition.plainSelectors config) s := by
  have hkeys : ((definition.duplicateGroups config).map Prod.fst).Nodup :=
    (Mapping.group (keyedSelectors config definition.selectors)).nodup.sublist
      (List.filter_sublist.map Prod.fst)
  have haims : (definition.sharedAims config).Nodup := (List.nodup_dedup _).filter _
  rw [Definition.ReportsExactly, map_selector_duplicates]
  simp only [Definition.aimedAt]
  rw [List.perm_ext_iff_of_nodup
    (nodup_map_getLast?_classOf hkeys fun key h => mem_keys_duplicateGroups_iff.1 h)
    (nodup_map_getLast?_classOf haims fun aim h => mem_sharedAims_iff.1 h)]
  constructor
  · intro hsame s
    have hfound := hsame (some s)
    rw [mem_map_getLast?_classOf fun _ => mem_keys_duplicateGroups_iff,
      mem_map_getLast?_classOf fun _ => mem_sharedAims_iff] at hfound
    simpa using hfound
  · intro hsame found
    rw [mem_map_getLast?_classOf fun _ => mem_keys_duplicateGroups_iff]
    refine Iff.trans ?_ (mem_map_getLast?_classOf fun _ => mem_sharedAims_iff).symm
    simp only [hsame]

theorem keyOf_eq_of_aimOf_eq {s s' : String} (h : aimOf config s = aimOf config s') :
    keyOf config s = keyOf config s' := congrArg Aim.key h

/-- **What looks alike.**  Where the default component has no colon, two selectors look alike if
they have the same component and state and their contexts and identifiers, joined by a colon, give
one text. -/
theorem mem_lookingLike_iff (hcomponent : ':' ∉ config.defaultComponent.toList) {s s' : String} :
    s' ∈ definition.lookingLike config (aimOf config s) ↔
      s' ∈ definition.plainSelectors config ∧
        (aimOf config s').component = (aimOf config s).component ∧
        (aimOf config s').middle = (aimOf config s).middle ∧
        (aimOf config s').state = (aimOf config s).state := by
  rw [Definition.lookingLike, List.mem_filter, beq_iff_eq,
    Aim.key_eq_iff hcomponent (isRead_aimOf config s') (isRead_aimOf config s)]

/-- **Without colons.**  Where the default component has no colon, and neither have the contexts of
the plain selectors or else their identifiers, duplicates are reported exactly. -/
theorem reportsExactly_of_colon_not_mem (hcomponent : ':' ∉ config.defaultComponent.toList)
    (hcolons :
      (∀ s ∈ definition.plainSelectors config, ∀ name ∈ (aimOf config s).context,
        ':' ∉ name.toList) ∨
      ∀ s ∈ definition.plainSelectors config, ∀ name ∈ (aimOf config s).identifier,
        ':' ∉ name.toList) :
    definition.ReportsExactly config := by
  rw [reportsExactly_iff_closesClass]
  refine closesClass_iff_of_eq_iff fun s hs s' hs' => ⟨fun hkey => ?_, keyOf_eq_of_aimOf_eq⟩
  refine Aim.eq_of_key_eq hcomponent (isRead_aimOf config s) (isRead_aimOf config s') ?_ hkey
  rcases hcolons with hcontext | hidentifier
  · exact .inl ⟨hcontext s hs, hcontext s' hs'⟩
  · exact .inr ⟨hidentifier s hs, hidentifier s' hs'⟩

/-- **Duplicates are reported exactly** if and only if among any several plain selectors that look
alike those share their aim with another one that have the aim of the last one.  Selectors of
different aims look alike where a colon stands in a context and in an identifier, so without
colons in the one kind of names or the other duplicates are reported exactly. -/
theorem reportsExactly_iff (definition : Definition) (config : Config) :
    (definition.ReportsExactly config ↔
      ∀ selector ∈ definition.plainSelectors config,
        1 < (definition.lookingLike config (aimOf config selector)).length →
          (1 < (definition.aimedAt config (aimOf config selector)).length ↔
            (definition.lookingLike config (aimOf config selector)).getLast?.map (aimOf config) =
              some (aimOf config selector))) ∧
    (':' ∉ config.defaultComponent.toList →
      (∀ s s', s' ∈ definition.lookingLike config (aimOf config s) ↔
        s' ∈ definition.plainSelectors config ∧
          (aimOf config s').component = (aimOf config s).component ∧
          (aimOf config s').middle = (aimOf config s).middle ∧
          (aimOf config s').state = (aimOf config s).state) ∧
      ((∀ s ∈ definition.plainSelectors config, ∀ name ∈ (aimOf config s).context,
          ':' ∉ name.toList) ∨
        (∀ s ∈ definition.plainSelectors config, ∀ name ∈ (aimOf config s).identifier,
          ':' ∉ name.toList) →
        definition.ReportsExactly config)) := by
  refine ⟨?_, fun hcomponent => ⟨fun _ _ => mem_lookingLike_iff hcomponent, fun hcolons =>
    reportsExactly_of_colon_not_mem hcomponent hcolons⟩⟩
  have hcoarser : ∀ s s', aimOf config s = aimOf config s' → keyOf config s = keyOf config s' :=
    fun _ _ => keyOf_eq_of_aimOf_eq
  rw [reportsExactly_iff_closesClass, closesClass_iff_iff hcoarser]
  rfl

end

/-- No colons: the two selectors for the context `chat` are reported, in one finding, and the one
with an identifier is not. -/
theorem reportsExactly_iff_chat :
    let definition : Definition :=
      { name := "n"
        overrides := .ofList [("button.chat", .null), ("button.chat#send", .null),
          ("button[data-context=\"chat\"]", .null)] }
    ':' ∉ ({} : Config).defaultComponent.toList ∧
      definition.plainSelectors {} =
        ["button.chat", "button.chat#send", "button[data-context=\"chat\"]"] ∧
      (∀ s ∈ definition.plainSelectors {}, ∀ name ∈ (aimOf {} s).context, ':' ∉ name.toList) ∧
      definition.ReportsExactly {} ∧
      (Check.duplicates definition {}).map Finding.selector =
        [some "button[data-context=\"chat\"]"] := by
  intro definition
  have hcomponent : ':' ∉ ({} : Config).defaultComponent.toList := by decide
  have hcontext : ∀ s ∈ definition.plainSelectors {}, ∀ name ∈ (aimOf {} s).context,
      ':' ∉ name.toList := by decide +kernel
  exact ⟨hcomponent, by decide +kernel, hcontext,
    ((reportsExactly_iff definition {}).2 hcomponent).2 (.inl hcontext), by decide +kernel⟩

/-- Two aims with one key: a colon in a value makes one context and identifier look like the
other. -/
theorem not_reportsExactly_colons :
    let first := "button[data-context=\"a:b\"][data-id=\"c\"]"
    let second := "button[data-context=\"a\"][data-id=\"b:c\"]"
    let definition : Definition :=
      { name := "n", overrides := .ofList [(first, .mapping []), (second, .mapping [])] }
    aimOf {} first = ⟨"button", some "a:b", some "c", none⟩ ∧
      aimOf {} second = ⟨"button", some "a", some "b:c", none⟩ ∧
      Check.duplicates definition {} =
        [{ check := "check_duplicate_targets"
           severity := .warning
           message :=
             "Multiple overrides target 'button:a:b:c:': " ++ first ++ ", " ++ second ++ "."
           selector := some second
           fix := some "Consolidate them; the later declaration wins." }] ∧
      ¬definition.ReportsExactly {} := by
  intro first second definition
  have hfirst : aimOf {} first = ⟨"button", some "a:b", some "c", none⟩ := by decide +kernel
  have hsecond : aimOf {} second = ⟨"button", some "a", some "b:c", none⟩ := by decide +kernel
  have hplain : definition.plainSelectors {} = [first, second] := by decide +kernel
  have hkey : keyOf {} first = keyOf {} second := by
    rw [keyOf, keyOf, hfirst, hsecond]
    decide +kernel
  have hgroup : ClosesClass (keyOf {}) (definition.plainSelectors {}) second := by
    simp [ClosesClass, classOf, hplain, hkey]
  have halone : ¬ClosesClass (aimOf {}) (definition.plainSelectors {}) second := by
    simp [ClosesClass, classOf, hplain, hfirst, hsecond]
  have hgroups : definition.duplicateGroups {} = [("button:a:b:c:", [first, second])] := by
    rw [Definition.duplicateGroups, keyedSelectors_eq, hplain]
    simp only [List.map_cons, List.map_nil, keyOf, hfirst, hsecond]
    decide
  refine ⟨hfirst, hsecond, ?_, ?_⟩
  · rw [duplicates_eq, hgroups]
    decide +kernel
  · rw [reportsExactly_iff_closesClass]
    intro hsame
    exact halone ((hsame second).1 hgroup)

end StyleCascade
