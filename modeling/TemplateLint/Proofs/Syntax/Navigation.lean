import Mathlib.Data.List.Infix
import Mathlib.Data.List.Nodup
import TemplateLint.Proofs.Syntax.Places

/-!
# Walking and climbing

A tree is walked by a loop over a stack of places, linked by another one that goes through them in
another order (`Lists`, `Links`), and climbed by following the links (`Climbs`). The loops end and
describe the tree: the walk lists its places in source order (`lists_iff`), the link of a place
leads to the one that has it as a child (`links_iff`), and a climb goes through the places around a
place up to the root (`climbs_iff`).
-/

namespace TemplateLint.Syntax.Tree

variable {root tree : Tree} {place : Path}

/-! ## Loops over places -/

/-- The places of the children of a node, in source order. -/
def childPlaces (root : Tree) (place : Path) : List Path :=
  ((root.at? place).map fun tree => tree.children.map fun child => child.1 :: place).getD []

/-- What a loop over a stack lists: the top place, and then what is listed once the places of its
children have taken its place, in some order. -/
inductive Lists (root : Tree) (order : List Path → List Path) : List Path → List Path → Prop where
  | done : Lists root order [] []
  | next {place : Path} {stack listed : List Path}
      (rest : Lists root order (order (root.childPlaces place) ++ stack) listed) :
      Lists root order (place :: stack) (place :: listed)

/-- Links the children of a place to it. -/
def adopt (root : Tree) (parent : Path → Option Path) (place : Path) : Path → Option Path :=
  fun other => if other ∈ root.childPlaces place then some place else parent other

/-- What linking makes of the links that are there: the root has no parent, and the places are gone
through with the last child of each on top. -/
def Links (root : Tree) (parent linked : Path → Option Path) : Prop :=
  ∃ listed, root.Lists List.reverse [[]] listed
    ∧ linked = listed.foldl root.adopt (Function.update parent [] none)

/-- The places above a link, each reached by the link of the one before. -/
inductive Climbs (parent : Path → Option Path) : Option Path → List Path → Prop where
  | top : Climbs parent none []
  | up {place : Path} {listed : List Path} (rest : Climbs parent (parent place) listed) :
      Climbs parent (some place) (place :: listed)

theorem Lists.unique {order : List Path → List Path} {stack listed other : List Path}
    (lists : root.Lists order stack listed) (lists' : root.Lists order stack other) :
    listed = other := by
  induction lists generalizing other with
  | done =>
    cases lists'
    rfl
  | next _ ih =>
    cases lists' with
    | next rest => rw [ih rest]

theorem Climbs.unique {parent : Path → Option Path} {link : Option Path} {listed other : List Path}
    (climbs : Climbs parent link listed) (climbs' : Climbs parent link other) : listed = other := by
  induction climbs generalizing other with
  | top =>
    cases climbs'
    rfl
  | up _ ih =>
    cases climbs' with
    | up rest => rw [ih rest]

/-! ## Places below places -/

theorem at?_append (root : Tree) (rest place : Path) :
    root.at? (rest ++ place) = (root.at? place).bind (·.at? rest) := by
  induction rest with
  | nil => simp [at?]
  | cons step rest ih =>
    rw [List.cons_append, at?, ih, Option.bind_assoc]
    rfl

theorem isSome_at?_of_suffix {outer : Path} (around : outer <:+ place)
    (found : (root.at? place).isSome) : (root.at? outer).isSome := by
  obtain ⟨rest, rfl⟩ := around
  rw [at?_append] at found
  exact Option.isSome_of_isSome_bind found

theorem exists_cons_suffix {outer place : Path} (around : outer <:+ place) (other : outer ≠ place) :
    ∃ step, step :: outer <:+ place := by
  obtain ⟨inner, rfl⟩ := around
  rcases List.eq_nil_or_concat inner with rfl | ⟨front, step, rfl⟩
  · exact absurd rfl other
  · exact ⟨step, front, by simp⟩

theorem walk_eq (here : Path) (tree : Tree) :
    tree.walk here
      = (here, tree) :: tree.children.flatMap fun child => child.2.walk (child.1 :: here) := by
  have each : ∀ children, walkList here children
      = children.flatMap fun child => child.2.walk (child.1 :: here) := by
    intro children
    induction children with
    | nil => rfl
    | cons child rest ih => rw [walkList, ih, List.flatMap_cons]
  cases tree with
  | mk node layout children => rw [walk, each, Tree.children]

section View

variable (view : root.IsView)

include view

theorem at?_child (found : root.at? place = some tree) {child : Step × Tree}
    (listed : child ∈ tree.children) : root.at? (child.1 :: place) = some child.2 := by
  rw [at?, found, Option.bind_some]
  exact (child?_eq_some_iff (isView_at? view found) child.1 child.2).2 listed

theorem mem_childPlaces {other : Path} : other ∈ root.childPlaces place
    ↔ (root.at? other).isSome ∧ other.tail? = some place := by
  rw [childPlaces]
  constructor
  · intro member
    cases found : root.at? place with
    | none =>
      rw [found] at member
      cases member
    | some tree =>
      rw [found] at member
      obtain ⟨child, listed, rfl⟩ := List.mem_map.1 member
      exact ⟨by rw [at?_child view found listed]; rfl, rfl⟩
  · rintro ⟨present, above⟩
    cases other with
    | nil => cases above
    | cons step parent =>
      obtain rfl := Option.some.inj above
      obtain ⟨child, below⟩ := Option.isSome_iff_exists.1 present
      obtain ⟨tree, found, below⟩ := Option.bind_eq_some_iff.1 below
      have listed := (child?_eq_some_iff (isView_at? view found) step child).1 below
      rw [found]
      exact List.mem_map.2 ⟨_, listed, rfl⟩

theorem mem_walk_iff_suffix {outer : Path} (found : root.at? outer = some tree)
    (present : (root.at? place).isSome) :
    place ∈ (tree.walk outer).map Prod.fst ↔ outer <:+ place := by
  have walked := mem_walk_iff tree (isView_at? view found) outer
  constructor
  · intro member
    obtain ⟨⟨other, below⟩, listed, rfl⟩ := List.mem_map.1 member
    obtain ⟨rest, rfl, -⟩ := (walked other below).1 listed
    exact List.suffix_append rest outer
  · rintro ⟨rest, rfl⟩
    obtain ⟨below, inside⟩ := Option.isSome_iff_exists.1 present
    rw [at?_append, found, Option.bind_some] at inside
    exact List.mem_map.2 ⟨_, (walked _ below).2 ⟨rest, rfl, inside⟩, rfl⟩

end View

theorem nodup_walk : ∀ tree : Tree, tree.IsView → ∀ here : Path,
    ((tree.walk here).map Prod.fst).Nodup := by
  refine Tree.view_induction fun span form parts => ?_
  intro here
  have view := Node.isView_tree ⟨span, form⟩
  have inside : ∀ child ∈ (Node.tree ⟨span, form⟩).children, ∀ place,
      place ∈ (child.2.walk (child.1 :: here)).map Prod.fst → child.1 :: here <:+ place := by
    intro child listed place member
    obtain ⟨⟨_, below⟩, entry, rfl⟩ := List.mem_map.1 member
    obtain ⟨rest, rfl, -⟩ :=
      (mem_walk_iff child.2 (isView_child view child listed) _ _ below).1 entry
    exact List.suffix_append rest _
  rw [walk_eq, List.map_cons, List.map_flatMap, List.nodup_cons, List.nodup_flatMap]
  refine ⟨fun member => ?_, fun child listed => parts child listed _, ?_⟩
  · obtain ⟨child, listed, member⟩ := List.mem_flatMap.1 member
    have longer := (inside child listed here member).length_le
    rw [List.length_cons] at longer
    exact Nat.not_succ_le_self _ longer
  · have steps := List.pairwise_map.1 (nodup_steps view)
    refine steps.imp_of_mem fun listed listed' other => ?_
    intro place member member'
    have first := inside _ listed place member
    have second := inside _ listed' place member'
    -- two ends of one place that are equally long are the same
    have same := (List.suffix_of_suffix_length_le first second (by simp)).eq_of_length (by simp)
    exact other (List.cons.inj same).1

/-! ## What the loops list -/

section Loops

variable (view : root.IsView) {order : List Path → List Path}
  (perm : ∀ places, (order places).Perm places)

include view perm

/-- A loop goes through a tree on top of a stack before the rest of the stack. With the first child
on top it lists the places of the tree in source order. -/
theorem exists_lists (tree : Tree) : ∀ (place : Path) (stack listed : List Path),
    root.at? place = some tree → root.Lists order stack listed →
      ∃ own, root.Lists order (place :: stack) (own ++ listed)
        ∧ (order = id → own = (tree.walk place).map Prod.fst) := by
  induction tree using Tree.children_induction with
  | step node layout children ih =>
    intro place stack listed found rest
    -- `some` are the last children on the stack, whatever their order
    have below : ∀ some : List Path, (∀ other ∈ some, other ∈ root.childPlaces place) →
        ∃ own, root.Lists order (some ++ stack) (own ++ listed) ∧ (order = id → own
          = some.flatMap fun other =>
            ((root.at? other).toList.flatMap (walk other)).map Prod.fst) := by
      intro some
      induction some with
      | nil => exact fun _ => ⟨[], rest, fun _ => rfl⟩
      | cons other others inner =>
        intro members
        obtain ⟨later, lists, same⟩ := inner fun other member => members other (.tail _ member)
        obtain ⟨child, listed', rfl⟩ : ∃ child ∈ children, child.1 :: place = other := by
          have member := members other (.head _)
          rw [childPlaces, found] at member
          exact List.mem_map.1 member
        have foundChild := at?_child view found listed'
        obtain ⟨own, lists, same'⟩ := ih child.1 child.2 listed' _ _ _ foundChild lists
        refine ⟨own ++ later, by rwa [List.append_assoc], fun plain => ?_⟩
        rw [same' plain, same plain, List.flatMap_cons, foundChild, Option.toList_some,
          List.flatMap_singleton]
    obtain ⟨own, lists, same⟩ := below (order (root.childPlaces place))
      fun other => (perm _).mem_iff.1
    refine ⟨place :: own, .next lists, fun plain => ?_⟩
    subst plain
    rw [same rfl, walk_eq, List.map_cons, List.map_flatMap, id, childPlaces, found, Option.map_some,
      Option.getD_some, List.flatMap_map]
    refine congrArg _ (List.flatMap_congr fun child member => ?_)
    rw [at?_child view found member, Option.toList_some, List.flatMap_singleton]

theorem mem_of_lists {stack listed : List Path} (lists : root.Lists order stack listed) {top : Path}
    (member : top ∈ stack) (around : top <:+ place) (present : (root.at? place).isSome) :
    place ∈ listed := by
  induction lists generalizing top with
  | done => cases member
  | @next first stack listed rest ih =>
    rcases List.mem_cons.1 member with rfl | member
    · by_cases own : top = place
      · exact own ▸ .head _
      · -- the next step down to the place leads to a child, which is on the stack then
        obtain ⟨step, further⟩ := exists_cons_suffix around own
        have child : step :: top ∈ root.childPlaces top :=
          (mem_childPlaces view).2 ⟨isSome_at?_of_suffix further present, rfl⟩
        exact .tail _ (ih (List.mem_append_left _ ((perm _).mem_iff.2 child)) further)
    · exact .tail _ (ih (List.mem_append_right _ member) around)

end Loops

section Links

variable (view : root.IsView)

include view

/-- **The walk lists the places of a tree in source order.** -/
theorem lists_iff (found : root.at? place = some tree) (listed : List Path) :
    root.Lists id [place] listed ↔ listed = (tree.walk place).map Prod.fst := by
  obtain ⟨own, lists, same⟩ := exists_lists view (fun _ => .refl _) tree place [] [] found .done
  rw [List.append_nil, same rfl] at lists
  constructor
  · exact fun other => other.unique lists
  · rintro rfl
    exact lists

theorem foldl_adopt (listed : List Path) (parent : Path → Option Path) (other : Path) :
    listed.foldl root.adopt parent other
      = if ∃ place ∈ listed, other ∈ root.childPlaces place then other.tail? else parent other := by
  induction listed generalizing parent with
  | nil => simp
  | cons first rest ih =>
    have here : other ∈ root.childPlaces first → other.tail? = some first :=
      fun member => ((mem_childPlaces view).1 member).2
    rw [List.foldl_cons, ih, adopt]
    by_cases later : ∃ place ∈ rest, other ∈ root.childPlaces place
    · simp [later]
    · by_cases own : other ∈ root.childPlaces first <;> simp [own, later, here]

/-- **Linking ends with every place linked to the one that it is a child of**, and the root to
none. -/
theorem links_iff (parent linked : Path → Option Path) : root.Links parent linked
    ↔ linked = fun place => if (root.at? place).isSome then place.tail? else parent place := by
  obtain ⟨listed, lists, -⟩ := exists_lists view List.reverse_perm root [] [] [] rfl .done
  rw [List.append_nil] at lists
  have result : listed.foldl root.adopt (Function.update parent [] none)
      = fun place => if (root.at? place).isSome then place.tail? else parent place := by
    funext place
    rw [foldl_adopt view]
    simp only [mem_childPlaces view]
    cases place with
    | nil => simp [at?]
    | cons step above =>
      by_cases present : (root.at? (step :: above)).isSome
      · have member := mem_of_lists view List.reverse_perm lists (.head _) List.nil_suffix
          (isSome_at?_of_suffix (List.suffix_cons ..) present)
        rw [if_pos ⟨above, member, present, rfl⟩, if_pos present]
      · simp [present]
  constructor
  · rintro ⟨other, lists', rfl⟩
    rw [lists'.unique lists, result]
  · rintro rfl
    exact ⟨listed, lists, result.symm⟩

end Links

/-! ## The three loops together -/

theorem tails_eq (place : Path) : place.tails = place :: place.tails.tail := by
  cases place <;> simp

theorem getLast?_tails (place : Path) : place.tails.getLast? = some [] := by
  induction place with
  | nil => rfl
  | cons step above ih => rw [List.tails_cons, List.getLast?_cons, ih, Option.getD_some]

/-- Climbing along right links passes all ancestors, the nearest first. -/
theorem climbs_iff {linked : Path → Option Path}
    (right : ∀ place, (root.at? place).isSome → linked place = place.tail?)
    (present : (root.at? place).isSome) (listed : List Path) :
    Climbs linked (linked place) listed ↔ listed = place.tails.tail := by
  have climbs : Climbs linked (linked place) place.tails.tail := by
    induction place with
    | nil =>
      rw [right [] present]
      exact .top
    | cons step above ih =>
      rw [right _ present, List.tails_cons, List.tail_cons, tails_eq]
      exact .up (ih (isSome_at?_of_suffix (List.suffix_cons ..) present))
  constructor
  · exact fun other => other.unique climbs
  · rintro rfl
    exact climbs

theorem ancestors_eq (root : Tree) (place : Path) :
    root.ancestors place = place.tails.tail.filterMap root.nodeAt? := by
  induction place with
  | nil => rfl
  | cons step above ih =>
    rw [ancestors, ih, List.tails_cons, List.tail_cons]
    conv_rhs => rw [tails_eq, List.filterMap_cons]
    cases root.nodeAt? above <;> rfl

/-- **The walk, the links and the climb agree on the tree.** Whatever links there are, linking the
tree of a node ends in one way, and touches no others. Then for every place of the tree:
* the walk lists the place and then, one child after the other, what the walks from its children
  list, and no place twice;
* the link of the place leads to the one place that has it as a child, and there is none for the
  root;
* the climb from the place goes through the places around it, from the nearest one to the root, and
  these hold its ancestors;
* the place is listed by the walks from itself and from the places around it, and by no others. -/
theorem navigation_agrees (root : Node) (parent : Path → Option Path) :
    ∃ linked, (∀ other, root.tree.Links parent other ↔ other = linked)
      ∧ (∀ place, root.tree.at? place = none → linked place = parent place)
      ∧ ∀ place tree, root.tree.at? place = some tree →
        (∀ listed, root.tree.Lists id [place] listed ↔ listed = (tree.walk place).map Prod.fst)
        ∧ tree.walk place
            = (place, tree) :: tree.children.flatMap (fun child => child.2.walk (child.1 :: place))
        ∧ ((tree.walk place).map Prod.fst).Nodup
        ∧ (∀ outer, linked place = some outer ↔ place ∈ root.tree.childPlaces outer)
        ∧ (linked place = none ↔ place = [])
        ∧ (∀ listed, Climbs linked (linked place) listed ↔ listed = place.tails.tail)
        ∧ root.tree.ancestors place = place.tails.tail.filterMap root.tree.nodeAt?
        ∧ (place ≠ [] → place.tails.tail.getLast? = some [])
        ∧ ∀ outer around, root.tree.at? outer = some around →
            (place ∈ (around.walk outer).map Prod.fst ↔ outer ∈ place.tails) := by
  have view := root.isView_tree
  refine ⟨_, links_iff view parent, fun place absent => by simp [absent], ?_⟩
  intro place tree found
  have present : (root.tree.at? place).isSome := by
    rw [found]
    rfl
  refine ⟨lists_iff view found, walk_eq place tree, nodup_walk tree (isView_at? view found) place,
    fun outer => ?_, ?_, climbs_iff (fun place present => if_pos present) present,
    ancestors_eq root.tree place, fun below => ?_, fun outer around foundOuter => ?_⟩
  · rw [if_pos present, mem_childPlaces view, and_iff_right present]
  · rw [if_pos present]
    cases place <;> simp
  · obtain ⟨step, above, rfl⟩ := List.exists_cons_of_ne_nil below
    rw [List.tails_cons, List.tail_cons, getLast?_tails]
  · rw [mem_walk_iff_suffix view foundOuter present, List.mem_tails]

end TemplateLint.Syntax.Tree
