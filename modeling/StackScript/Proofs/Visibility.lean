import StackScript.Proofs.ScopeGrowth
import StackScript.Proofs.Trace

/-!
# Where a definition is visible

A name is looked up from a scope outwards, and the first scope that binds it decides.  So a definition is
seen from its own scope and from those inside, unless a scope in between binds the name as well, and it
makes no difference to any other lookup.

* `Forest.Built` — the forests that come from creating scopes, each inside one that exists, and binding
  words.
* `Forest.Walk`, `Forest.Linked.walk_iff` — the way outwards from parent to parent, and that a lookup
  takes it.
* `Forest.Sees` — nothing that binds the name lies on the way from one scope to another.
* `Forest.lookup_define_of_sees`, `Forest.lookup_define_of_not_sees` — what a definition changes.
* `Config.Inside`, `runCode_built` — runs only build.

Principal result: `definition_visible_exactly`.
-/

set_option autoImplicit false

namespace StackScript

variable {ν : Type}

namespace Forest

/-! ## Forests that have been built -/

/-- The forest comes from creating scopes, each with nothing around it or inside one that exists, and
binding words. -/
inductive Built : Forest ν → Prop where
  | empty : Built .empty
  | newHost {forest : Forest ν} (h : Built forest) : Built forest.newHost
  | newChild {forest : Forest ν} (h : Built forest) {parent : ScopeId} (hp : parent < forest.size) :
      Built (forest.newChild parent)
  | define {forest : Forest ν} (h : Built forest) (scope : ScopeId) (word : Word ν) :
      Built (forest.define scope word)

/-- Around a scope lie its parent and what lies around that, all of which exist. -/
structure Linked (forest : Forest ν) : Prop where
  inside : ∀ scope, ∀ outer ∈ forest.ancestors scope, outer < forest.size
  parent : ∀ scope parent, forest.parent? scope = some parent →
    forest.ancestors scope = forest.chain parent

theorem mem_ancestors_of_parent? {forest : Forest ν} {scope parent : ScopeId}
    (h : forest.parent? scope = some parent) : parent ∈ forest.ancestors scope :=
  List.mem_of_mem_head? h

namespace Linked

variable {forest : Forest ν}

theorem empty : (Forest.empty : Forest ν).Linked := by
  have hnone : ∀ scope, (Forest.empty : Forest ν).ancestors scope = [] := fun scope =>
    ancestors_of_size_le (Nat.zero_le scope)
  refine ⟨fun scope outer hm => ?_, fun scope parent hp => ?_⟩
  · rw [hnone] at hm
    cases hm
  · rw [parent?, hnone] at hp
    cases hp

theorem newHost (h : forest.Linked) : forest.newHost.Linked := by
  refine ⟨fun scope outer hm => ?_, fun scope parent hp => ?_⟩
  · rw [ancestors_newHost] at hm
    rw [size_newHost]
    exact Nat.lt_succ_of_lt (h.inside scope outer hm)
  · rw [parent?, ancestors_newHost] at hp
    rw [chain, ancestors_newHost, ancestors_newHost]
    exact h.parent scope parent hp

theorem define (h : forest.Linked) (scope : ScopeId) (word : Word ν) :
    (forest.define scope word).Linked := by
  refine ⟨fun other outer hm => ?_, fun other parent hp => ?_⟩
  · rw [ancestors_define] at hm
    rw [size_define]
    exact h.inside other outer hm
  · rw [parent?, ancestors_define] at hp
    rw [chain, ancestors_define, ancestors_define]
    exact h.parent other parent hp

/-- The scopes around the old ones are old, so their chains stay what they were. -/
theorem newChild (h : forest.Linked) {parent : ScopeId} (hp : parent < forest.size) :
    (forest.newChild parent).Linked := by
  have hold : ∀ outer < forest.size, (forest.newChild parent).chain outer = forest.chain outer := by
    intro outer ho
    rw [chain, ancestors_newChild, if_neg (Nat.ne_of_lt ho), chain]
  have hchain : ∀ outer ∈ forest.chain parent, outer < forest.size := by
    intro outer hm
    rcases List.mem_cons.1 hm with rfl | hm
    · exact hp
    · exact h.inside parent outer hm
  refine ⟨fun scope outer hm => ?_, fun scope outer ho => ?_⟩
  · rw [ancestors_newChild] at hm
    rw [size_newChild]
    split at hm
    · exact Nat.lt_succ_of_lt (hchain outer hm)
    · exact Nat.lt_succ_of_lt (h.inside scope outer hm)
  · rw [parent?, ancestors_newChild] at ho
    rw [ancestors_newChild]
    split at ho
    · rename_i hs
      cases ho
      rw [if_pos hs, hold parent hp]
    · rename_i hs
      rw [if_neg hs, hold outer (h.inside scope outer (mem_ancestors_of_parent? ho))]
      exact h.parent scope outer ho

end Linked

theorem Built.linked {forest : Forest ν} (h : forest.Built) : forest.Linked := by
  induction h with
  | empty => exact .empty
  | newHost _ ih => exact ih.newHost
  | newChild _ hp ih => exact ih.newChild hp
  | define _ scope word ih => exact ih.define scope word

/-! ## The way outwards -/

/-- From `inner` one gets to `outer` by going from parent to parent, leaving the scopes `nearer` behind. -/
inductive Walk (forest : Forest ν) : ScopeId → List ScopeId → ScopeId → Prop where
  | here (scope : ScopeId) : Walk forest scope [] scope
  | outward {inner parent outer : ScopeId} {nearer : List ScopeId}
      (hp : forest.parent? inner = some parent) (h : Walk forest parent nearer outer) :
      Walk forest inner (inner :: nearer) outer

/-- **A lookup goes from parent to parent.** -/
theorem Linked.walk_iff {forest : Forest ν} (h : forest.Linked) {inner outer : ScopeId}
    {nearer : List ScopeId} :
    forest.Walk inner nearer outer ↔ ∃ farther, forest.chain inner = nearer ++ outer :: farther := by
  constructor
  · intro hwalk
    induction hwalk with
    | here scope => exact ⟨forest.ancestors scope, rfl⟩
    | @outward inner parent outer nearer hp _ ih =>
      obtain ⟨farther, hf⟩ := ih
      exact ⟨farther, by rw [chain, h.parent inner parent hp, hf, List.cons_append]⟩
  · rintro ⟨farther, hf⟩
    induction nearer generalizing inner with
    | nil =>
      obtain ⟨rfl, -⟩ := List.cons.inj hf
      exact .here inner
    | cons first rest ih =>
      obtain ⟨rfl, hrest⟩ := List.cons.inj hf
      cases ha : forest.ancestors inner with
      | nil =>
        rw [ha] at hrest
        exact absurd hrest.symm (by simp)
      | cons parent others =>
        have hp : forest.parent? inner = some parent := by rw [parent?, ha, List.head?_cons]
        exact .outward hp (ih ((h.parent inner parent hp).symm.trans hrest))

/-- From `inner` one gets to `outer` without meeting a scope before it that binds the name. -/
def Sees (forest : Forest ν) (inner outer : ScopeId) (name : String) : Prop :=
  ∃ nearer, forest.Walk inner nearer outer ∧ ∀ scope ∈ nearer, forest.bindsLocally scope name = false

theorem bindsLocally_eq_false_iff {forest : Forest ν} {scope : ScopeId} {name : String} :
    forest.bindsLocally scope name = false ↔ forest.local? scope name = none := by
  rw [bindsLocally, Option.isSome_eq_false_iff, Option.isNone_iff_eq_none]

theorem Linked.sees_iff {forest : Forest ν} (h : forest.Linked) {inner outer : ScopeId}
    {name : String} :
    forest.Sees inner outer name ↔ ∃ nearer farther, forest.chain inner = nearer ++ outer :: farther ∧
      ∀ scope ∈ nearer, forest.local? scope name = none := by
  simp only [Sees, h.walk_iff, bindsLocally_eq_false_iff]
  exact ⟨fun ⟨nearer, ⟨farther, hc⟩, hn⟩ => ⟨nearer, farther, hc, hn⟩,
    fun ⟨nearer, farther, hc, hn⟩ => ⟨nearer, ⟨farther, hc⟩, hn⟩⟩

/-! ## Lookups after a definition -/

theorem chain_define (forest : Forest ν) (scope inner : ScopeId) (word : Word ν) :
    (forest.define scope word).chain inner = forest.chain inner := by
  rw [chain, ancestors_define, chain]

section Definition

variable {forest : Forest ν} {scope : ScopeId} {word : Word ν}

/-- What the scope of a definition binds to its name decides a lookup that gets there. -/
theorem findSome?_define_of_append (hs : scope < forest.size) (nearer farther : List ScopeId)
    (hn : ∀ s ∈ nearer, forest.local? s word.name = none) :
    (nearer ++ scope :: farther).findSome? (fun s => (forest.define scope word).local? s word.name) =
      some word := by
  have hown : (forest.define scope word).local? scope word.name = some word := by
    rw [local?_define, if_pos ⟨rfl, hs, rfl⟩]
  induction nearer with
  | nil => rw [List.nil_append, List.findSome?_cons, hown]
  | cons first rest ih =>
    obtain ⟨hfirst, hrest⟩ := List.forall_mem_cons.1 hn
    rw [List.cons_append, List.findSome?_cons]
    by_cases he : scope = first
    · rw [← he, hown]
    · rw [local?_define, if_neg fun hc => he hc.1, hfirst]
      exact ih hrest

/-- Scopes that a lookup comes to after one that binds the name, or not at all, make no difference. -/
theorem findSome?_define_of_not_append (scopes : List ScopeId)
    (hn : ¬ ∃ nearer farther, scopes = nearer ++ scope :: farther ∧
      ∀ s ∈ nearer, forest.local? s word.name = none) :
    scopes.findSome? (fun s => (forest.define scope word).local? s word.name) =
      scopes.findSome? (fun s => forest.local? s word.name) := by
  induction scopes with
  | nil => rfl
  | cons first rest ih =>
    have hne : scope ≠ first := by
      rintro rfl
      exact hn ⟨[], rest, rfl, fun s hm => nomatch hm⟩
    rw [List.findSome?_cons, List.findSome?_cons, local?_define, if_neg fun hc => hne hc.1]
    cases hf : forest.local? first word.name with
    | some found => rfl
    | none =>
      -- nothing is bound here, so what lies ahead is seen from here too
      refine ih fun ⟨nearer, farther, he, hnearer⟩ => hn ⟨first :: nearer, farther, ?_, ?_⟩
      · rw [he, List.cons_append]
      · exact List.forall_mem_cons.2 ⟨hf, hnearer⟩

/-- **A definition is what its name means where it is seen.** -/
theorem lookup_define_of_sees (h : forest.Linked) (hs : scope < forest.size) {inner : ScopeId}
    (hsees : forest.Sees inner scope word.name) :
    (forest.define scope word).lookup inner word.name = some word := by
  obtain ⟨nearer, farther, hchain, hnearer⟩ := h.sees_iff.1 hsees
  rw [lookup, chain_define, hchain]
  exact findSome?_define_of_append hs nearer farther hnearer

/-- **A definition makes no difference to other names, nor where it is not seen.** -/
theorem lookup_define_of_not_sees (h : forest.Linked) {inner : ScopeId} {name : String}
    (hsees : ¬ (name = word.name ∧ forest.Sees inner scope name)) :
    (forest.define scope word).lookup inner name = forest.lookup inner name := by
  rw [lookup, chain_define, lookup]
  by_cases hname : name = word.name
  · subst hname
    exact findSome?_define_of_not_append _ fun happend => hsees ⟨rfl, h.sees_iff.2 happend⟩
  · have hlocal : ∀ s, (forest.define scope word).local? s name = forest.local? s name := fun s => by
      rw [local?_define, if_neg fun hc => hname hc.2.2.symm]
    simp only [hlocal]

end Definition

end Forest

/-! ## Runs only build -/

/-- The scopes have been built, and the current one is one of them. -/
structure State.Inside (state : State ν) : Prop where
  built : state.forest.Built
  scope : state.scope < state.forest.size

theorem State.Inside.congr {state other : State ν} (h : state.Inside)
    (hforest : other.forest = state.forest) (hscope : other.scope = state.scope) : other.Inside := by
  refine ⟨?_, ?_⟩
  · rw [hforest]
    exact h.built
  · rw [hforest, hscope]
    exact h.scope

theorem Primitive.effect_inside (operation : Primitive) {state : State ν} (h : state.Inside) :
    (operation.effect state).state.Inside := by
  rcases operation.effect_cases state with ⟨stack, sink, he⟩ | ⟨-, he⟩ | ⟨parent, -, hp, he⟩
  · rw [he]
    exact h.congr rfl rfl
  · rw [he]
    refine ⟨h.built.newChild h.scope, ?_⟩
    show state.forest.size < (state.forest.newChild state.scope).size
    rw [Forest.size_newChild]
    exact Nat.lt_succ_self _
  · rw [he]
    exact ⟨h.built, h.built.linked.inside state.scope parent (Forest.mem_ancestors_of_parent? hp)⟩

theorem State.Inside.define {state : State ν} (h : state.Inside) (scope : ScopeId) (word : Word ν) :
    (state.define scope word).Inside := by
  refine ⟨h.built.define scope word, ?_⟩
  show state.scope < (state.forest.define scope word).size
  rw [Forest.size_define]
  exact h.scope

theorem Instruction.move_inside {state : State ν} {instruction : Instruction} {move : Move ν}
    (hm : instruction.move? state = some move) (h : state.Inside) : move.state.Inside := by
  cases instruction with
  | primitive location operation =>
    cases hm
    rw [Outcome.state_move]
    exact operation.effect_inside h
  | push location value => cases hm; exact h.congr rfl rfl
  | define location name body => cases hm; exact h.define _ _
  | execute location name => cases hm
  | jumpIfFalse location offset =>
    simp only [Instruction.move?] at hm
    split at hm <;> cases hm <;> exact h.congr rfl rfl
  | jump location offset => cases hm; exact h

theorem State.Inside.moveTo {state : State ν} (h : state.Inside) (location : Option Location) :
    (state.moveTo location).Inside :=
  h.congr (State.moveTo_forest state location) (State.moveTo_scope state location)

/-- The scopes have been built, and whatever goes on goes on in one of them. -/
structure Config.Inside (config : Config ν) : Prop where
  state : config.state.Inside
  callers : ∀ frame ∈ config.callers, frame.scope < config.state.forest.size

namespace Config

variable {config next : Config HostWord}

theorem Opens.inside {location : Option Location} {name : String} {word : Word HostWord}
    {native : HostWord} {outcome : Outcome HostWord} (ho : config.Opens location name word)
    (hb : word.body = .native native)
    (hp : Performs hostRoutine (hostRoutine native) (config.opened location name) outcome)
    (hwords : config.state.forest.EveryWord Word.Settles) (h : config.state.Inside) :
    outcome.state.Inside ∧ outcome.state.forest = config.state.forest := by
  have hdata := ho.dataOnly hb hp hwords
  have hforest := hdata.forest.trans (opened_forest location name)
  exact ⟨h.congr hforest (hdata.scope.trans (opened_scope location name)), hforest⟩

/-- **From head to head the scopes are only built.** -/
theorem Inside.passage (h : config.Inside) (hp : config.Passage hostRoutine next)
    (hwords : config.state.forest.EveryWord Word.Settles) : next.Inside := by
  cases hp with
  | @leave frame callers hi hc =>
    have hcallers := List.forall_mem_cons.1 (hc ▸ h.callers)
    exact ⟨⟨h.state.built, hcallers.1⟩, hcallers.2⟩
  | @move instruction offset state hi hm =>
    have hgrown := (Instruction.move_lasting Forest.Grown.lasting.toLasting hm).extends.size
    rw [State.moveTo_forest] at hgrown
    exact ⟨Instruction.move_inside hm (h.state.moveTo _), fun frame hf =>
      Nat.lt_of_lt_of_le (h.callers frame hf) hgrown⟩
  | @enter location name word body ho hb =>
    have hopened : (config.opened location name).Inside :=
      h.state.congr (opened_forest location name) (opened_scope location name)
    refine ⟨hopened, List.forall_mem_cons.2 ⟨hopened.scope, ?_⟩⟩
    show ∀ frame ∈ config.callers, frame.scope < (config.opened location name).forest.size
    rw [opened_forest]
    exact h.callers
  | @native location name word native state ho hb hp =>
    obtain ⟨hinside, hforest⟩ := ho.inside hb hp hwords h.state
    refine ⟨hinside.congr rfl rfl, fun frame hf => ?_⟩
    show frame.scope < state.forest.size
    rw [show state.forest = _ from hforest]
    exact h.callers frame hf

theorem Inside.ending {halt : Halt HostWord} (h : config.Inside) (hs : config.Ending hostRoutine halt)
    (hwords : config.state.forest.EveryWord Word.Settles) : halt.state.forest.Built := by
  cases hs with
  | finished hi hc => exact h.state.built
  | fault hi hm => exact (Instruction.move_inside hm (h.state.moveTo _)).built
  | refused hi hb => exact (h.state.moveTo _).built
  | native ho hb hp => exact (ho.inside hb hp hwords h.state).1.built

end Config

theorem Path.inside {start last : Config HostWord} {heads : List (Config HostWord)}
    (h : Path hostRoutine start heads last) (hwords : start.state.forest.EveryWord Word.Settles)
    (hstart : start.Inside) : last.Inside := by
  induction h with
  | nil => exact hstart
  | snoc hpath hg ih => exact ih.passage hg.passage (hpath.settles hwords)

/-- **Running code only builds**, whether it succeeds or fails. -/
theorem runCode_built {fuel : Nat} {code : Code} {state : State HostWord} {outcome : Outcome HostWord}
    (hrun : runCode hostRoutine fuel code state = some outcome)
    (hwords : state.forest.EveryWord Word.Settles) (hinside : state.Inside) :
    outcome.state.forest.Built := by
  obtain ⟨heads, last, halt, hpath, hstop, rfl⟩ := runCode_path hrun
  have hlast : last.Inside := hpath.inside hwords ⟨hinside, fun frame hf => nomatch hf⟩
  rw [Halt.unwind_forest]
  exact hlast.ending hstop.ending (hpath.settles hwords)

/-! ## The result -/

theorem Forest.name_of_local? {forest : Forest ν} {scope : ScopeId} {name : String} {word : Word ν}
    (h : forest.local? scope name = some word) : word.name = name := by
  simpa using List.find?_some h

/-- **A definition is visible exactly where it should be.**  After a word has been bound in a scope, it is
what its name means wherever the scope can be got to from parent to parent without meeting one that binds
the name, and every other lookup finds what it found.  Whatever is done to the scopes, and whatever runs,
on whatever host, those that existed keep their parents and their depths, names that are bound in them stay
bound there, and every word is bound under its own name.  What a run on the demonstration words leaves
behind has been built too, so that the first part goes on to hold. -/
theorem definition_visible_exactly {forest : Forest ν} (hbuilt : forest.Built) {scope : ScopeId}
    (hs : scope < forest.size) (word : Word ν) :
    (∀ inner name,
      (name = word.name ∧ forest.Sees inner scope name →
        (forest.define scope word).lookup inner name = some word) ∧
      (¬ (name = word.name ∧ forest.Sees inner scope name) →
        (forest.define scope word).lookup inner name = forest.lookup inner name)) ∧
    (∀ before after : Forest ν, before.Reaches after → ∀ other < before.size,
      after.parent? other = before.parent? other ∧ after.depth other = before.depth other ∧
      ∀ name, before.bindsLocally other name = true → after.bindsLocally other name = true) ∧
    (∀ reached : Forest ν, Forest.empty.Reaches reached → ∀ other,
      (∀ name bound, reached.local? other name = some bound → bound.name = name) ∧
      ∀ bound ∈ reached.words other, reached.local? other bound.name = some bound) ∧
    ∀ (fuel : Nat) (code : Code) (state : State HostWord) (outcome : Outcome HostWord),
      state.Inside → state.forest.EveryWord Word.Settles →
      runCode hostRoutine fuel code state = some outcome → outcome.state.forest.Built := by
  refine ⟨fun inner name => ⟨?_, ?_⟩, ?_, ?_, ?_⟩
  · rintro ⟨rfl, hsees⟩
    exact Forest.lookup_define_of_sees hbuilt.linked hs hsees
  · exact Forest.lookup_define_of_not_sees hbuilt.linked
  · intro before after hreaches other ho
    have hextends := hreaches.grown.extends
    exact ⟨hextends.parent? ho, hextends.depth ho, hextends.bound other⟩
  · intro reached hreaches other
    exact ⟨fun name bound hb => Forest.name_of_local? hb, fun bound hm =>
      (hreaches.ordered other).find?_eq hm⟩
  · intro fuel code state outcome hinside hwords hrun
    exact runCode_built hrun hwords hinside

/-- Two nested scopes inside that of the host, the outer of which binds `w`.  When the host binds `w` as
well, only the host itself sees it; and the run of some code that opens a package and binds `w` there
leaves the scopes where they are. -/
theorem definition_visible_exactly_shadowed :
    ∃ (near far : Word HostWord) (forest : Forest HostWord) (outcome : Outcome HostWord),
      near.name = "w" ∧ far.name = "w" ∧ near.description ≠ far.description ∧
      forest = ((Forest.empty.newHost.newChild 0).newChild 1).define 1 near ∧
      forest.Built ∧ 0 < forest.size ∧
      (forest.define 0 far).lookup 0 "w" = some far ∧
      (forest.define 0 far).lookup 2 "w" = some near ∧
      runCode hostRoutine 9 [.primitive none .package, .define none "w" []]
        ⟨[], forest, 0, .closed, 5, 2, none, .empty⟩ = some outcome ∧
      outcome.state.forest.parent? 2 = some 1 ∧ outcome.state.forest.depth 2 = 2 ∧
      outcome.state.forest.bindsLocally 1 "w" = true ∧ outcome.state.forest.Built := by
  let near : Word HostWord := ⟨.unspecified, "w", "near", .scripted []⟩
  let far : Word HostWord := ⟨.unspecified, "w", "far", .scripted []⟩
  let forest : Forest HostWord := ((Forest.empty.newHost.newChild 0).newChild 1).define 1 near
  have hbuilt : forest.Built :=
    ((Forest.Built.empty.newHost.newChild (by decide)).newChild (by decide)).define 1 near
  have hs : 0 < forest.size := by decide
  obtain ⟨hlookup, hreaches, -, hruns⟩ := definition_visible_exactly hbuilt hs far
  have hsees : forest.Sees 0 0 "w" := ⟨[], .here 0, fun scope hm => nomatch hm⟩
  have hhidden : ¬ forest.Sees 2 0 "w" := by
    rintro ⟨nearer, hwalk, hn⟩
    cases hwalk with
    | outward hp h =>
      cases hp
      cases h with
      | outward hp h => exact absurd (hn 1 (by simp)) (by decide)
  have hwords : forest.EveryWord Word.Settles := by
    refine ((Forest.EveryWord.empty.newHost.newChild 0).newChild 1).define 1 fun native hb => ?_
    cases hb
  let state : State HostWord := ⟨[], forest, 0, .closed, 5, 2, none, .empty⟩
  have hends : (runCode hostRoutine 9 [.primitive none .package, .define none "w" []] state).isSome =
      true := rfl
  obtain ⟨outcome, hrun⟩ := Option.isSome_iff_exists.1 hends
  have hran : forest.Reaches outcome.state.forest := .tail .refl (.run hrun)
  obtain ⟨hparent, hdepth, -⟩ := hreaches forest outcome.state.forest hran 2 (by decide)
  obtain ⟨-, -, hbound⟩ := hreaches forest outcome.state.forest hran 1 (by decide)
  exact ⟨near, far, forest, outcome, rfl, rfl, by decide, rfl, hbuilt, hs,
    (hlookup 0 "w").1 ⟨rfl, hsees⟩, (hlookup 2 "w").2 fun h => hhidden h.2, hrun, hparent, hdepth,
    hbound "w" (by decide), hruns _ _ _ _ ⟨hbuilt, by decide⟩ hwords hrun⟩

end StackScript
