import Mathlib.Data.List.Basic
import Mathlib.Tactic.Common

/-!
# Paths in a tree of files

A path is a text.  It is cut at its separators and walked component by
component, from the top or from the working directory: an empty component and a
dot stay, two dots go up, any other goes down, and where that is a symbolic link
the walk goes on along its target.  Below a directory only ordinary names matter,
and a walk along ordinary names that crosses no link never leaves it.
-/

namespace FileTree

inductive Node
  | file (content : List UInt8)
  | dir (entries : List (List Char × Node))
  | link (target : List Char)

/-- A node, and the directories above it. -/
structure Place where
  node : Node
  above : List Node

def Place.enter (place : Place) (component : List Char) : Option Place :=
  match place.node with
  | .file _ => none
  | .link _ => none
  | .dir entries =>
      if component = [] ∨ component = ['.'] then some place
      else if component = ['.', '.'] then
        match place.above with
        | parent :: above => some ⟨parent, above⟩
        | [] => some place
      else
        (entries.lookup component).map fun node =>
          ⟨node, place.node :: place.above⟩

/-- A walk that hands over at a link: to the directory it is in, its target and
the components behind it. -/
def Place.walkWith
    (follow : Place → List Char → List (List Char) → Option Place) :
    Place → List (List Char) → Option Place
  | place, [] => some place
  | place, component :: components =>
      (place.enter component).bind fun next =>
        match next.node with
        | .link target => follow place target components
        | _ => next.walkWith follow components

/-- On along the target of a link, with `links` of them left to follow. -/
def follow (top : Place) :
    ℕ → Place → List Char → List (List Char) → Option Place
  | 0, _, _, _ => none
  | links + 1, place, target, components =>
      if target = [] then none
      else
        (if target.head? = some '/' then top else place).walkWith
          (follow top links) (target.splitOn '/' ++ components)

def walk (top : Place) (links : ℕ) : Place → List (List Char) → Option Place :=
  Place.walkWith (follow top links)

/-- How many links the system follows on one path. -/
def MAXSYMLINKS : ℕ := 40

/-- Where a path leads, from the top or from the working directory. -/
def resolve (top cwd : Place) (path : List Char) : Option Place :=
  walk top MAXSYMLINKS (if path.head? = some '/' then top else cwd)
    (path.splitOn '/')

def read (top cwd : Place) (path : List Char) : Option (List UInt8) :=
  match resolve top cwd path with
  | some ⟨.file content, _⟩ => some content
  | _ => none

/-- `PathBuf::join`: an absolute path replaces the base. -/
def join (base path : List Char) : List Char :=
  if path.head? = some '/' then path
  else if base = [] ∨ base.getLast? = some '/' then base ++ path
  else base ++ '/' :: path

/-- What is below a directory. -/
def Node.descend : Node → List (List Char) → Option Node
  | node, [] => some node
  | .file _, _ :: _ => none
  | .link _, _ :: _ => none
  | .dir entries, name :: names =>
      (entries.lookup name).bind fun node => node.descend names

/-- The way down along the names, or its end, is a link. -/
def Node.Crosses (node : Node) (names : List (List Char)) : Prop :=
  ∃ front target, front <+: names ∧ node.descend front = some (.link target)

/-- A component that names an entry of a directory. -/
def Ordinary (component : List Char) : Prop :=
  component ≠ [] ∧ component ≠ ['.'] ∧ component ≠ ['.', '.']

instance (component : List Char) : Decidable (Ordinary component) :=
  inferInstanceAs (Decidable (_ ∧ _ ∧ _))

section Walks

variable {place top cwd : Place} {base path component : List Char} {links : ℕ}
    {components components' names : List (List Char)} {content : List UInt8}

theorem walk_nil : walk top links place [] = some place := rfl

theorem walk_cons : walk top links place (component :: components) =
    (place.enter component).bind fun next =>
      match next.node with
      | .link target => follow top links place target components
      | _ => walk top links next components := rfl

theorem walk_cons_of_enter {next : Place}
    (henter : place.enter component = some next)
    (hnode : ¬ ∃ target, next.node = .link target) :
    walk top links place (component :: components) =
      walk top links next components := by
  rw [walk_cons, henter, Option.bind_some]
  split
  · rename_i target heq
    exact absurd ⟨target, heq⟩ hnode
  · rfl

theorem enter_ordinary {entries : List (List Char × Node)}
    (hnode : place.node = .dir entries) (h : Ordinary component) :
    place.enter component = (entries.lookup component).map fun node =>
      ⟨node, place.node :: place.above⟩ := by
  obtain ⟨hne, hdot, hdots⟩ := h
  unfold Place.enter
  simp [hnode, hne, hdot, hdots]

/-- A walk goes on from where its first part ends, with the links that are left,
if that is so behind each link. -/
theorem walk_append_of_follow (place : Place)
    (components : List (List Char))
    (h : ∀ place target components, ∃ left, ∀ components',
      follow top links place target (components ++ components') =
        (follow top links place target components).bind fun next =>
          walk top left next components') :
    ∃ left, ∀ components', walk top links place (components ++ components') =
      (walk top links place components).bind fun next =>
        walk top left next components' := by
  induction components generalizing place with
  | nil => exact ⟨links, fun components' => rfl⟩
  | cons component components ih =>
      cases henter : place.enter component with
      | none =>
          refine ⟨0, fun components' => ?_⟩
          rw [List.cons_append, walk_cons, walk_cons, henter]
          rfl
      | some next =>
          by_cases hlink : ∃ target, next.node = .link target
          · obtain ⟨target, hlink⟩ := hlink
            obtain ⟨left, hleft⟩ := h place target components
            refine ⟨left, fun components' => ?_⟩
            rw [List.cons_append, walk_cons, walk_cons, henter]
            simp only [Option.bind_some, hlink]
            exact hleft components'
          · obtain ⟨left, hleft⟩ := ih next
            refine ⟨left, fun components' => ?_⟩
            rw [List.cons_append, walk_cons_of_enter henter hlink,
              walk_cons_of_enter henter hlink]
            exact hleft components'

theorem walk_append (top : Place) (links : ℕ) (place : Place)
    (components : List (List Char)) : ∃ left, ∀ components',
    walk top links place (components ++ components') =
      (walk top links place components).bind fun next =>
        walk top left next components' := by
  induction links generalizing place components with
  | zero =>
      exact walk_append_of_follow place components fun _ _ _ => ⟨0, fun _ => rfl⟩
  | succ links ih =>
      apply walk_append_of_follow
      intro place target components
      by_cases hempty : target = []
      · refine ⟨0, fun components' => ?_⟩
        rw [follow, follow, if_pos hempty, if_pos hempty]
        rfl
      · obtain ⟨left, hleft⟩ := ih
          (if target.head? = some '/' then top else place)
          (target.splitOn '/' ++ components)
        refine ⟨left, fun components' => ?_⟩
        rw [follow, follow, if_neg hempty, if_neg hempty, ← List.append_assoc]
        exact hleft components'

/-- An empty component that is not the last one makes no difference. -/
theorem walk_empty (h : components ≠ []) :
    walk top links place ([] :: components) =
      walk top links place components := by
  obtain ⟨component, rest, rfl⟩ := List.exists_cons_of_ne_nil h
  obtain ⟨node, above⟩ := place
  cases node with
  | file content => rfl
  | dir entries => rfl
  | link target => rfl

theorem walk_empty_bind {left : ℕ} (h : components ≠ []) :
    ((walk top links place [[]]).bind fun next =>
      walk top left next components) = walk top left place components := by
  obtain ⟨component, rest, rfl⟩ := List.exists_cons_of_ne_nil h
  obtain ⟨node, above⟩ := place
  cases node with
  | file content => rfl
  | dir entries => rfl
  | link target => rfl

theorem splitOn_ne_nil (path : List Char) : path.splitOn '/' ≠ [] :=
  List.splitOn_ne_nil '/' path

/-- A relative path leads on from where its base leads. -/
theorem resolve_join (hpath : path.head? ≠ some '/') : ∃ left,
    resolve top cwd (join base path) =
      (resolve top cwd base).bind fun next =>
        walk top left next (path.splitOn '/') := by
  unfold join
  rw [if_neg hpath]
  by_cases hempty : base = []
  · subst hempty
    refine ⟨MAXSYMLINKS, ?_⟩
    rw [if_pos (.inl rfl), List.nil_append]
    unfold resolve
    rw [if_neg hpath, List.head?_nil, if_neg (by simp), List.splitOn_nil]
    exact (walk_empty_bind (splitOn_ne_nil path)).symm
  · have hhead : ∀ rest, (base ++ rest).head? = base.head? := by
      intro rest
      exact List.head?_append_of_ne_nil base hempty
    by_cases hslash : base.getLast? = some '/'
    · obtain ⟨front, rfl⟩ := List.getLast?_eq_some_iff.mp hslash
      rw [if_pos (.inr hslash)]
      unfold resolve
      rw [hhead, List.append_assoc, List.singleton_append,
        List.splitOn_append_cons_self, List.splitOn_append_cons_self,
        List.splitOn_nil]
      obtain ⟨left, hleft⟩ := walk_append top MAXSYMLINKS
        (if (front ++ ['/']).head? = some '/' then top else cwd)
        (front.splitOn '/')
      refine ⟨left, ?_⟩
      rw [hleft, hleft, Option.bind_assoc]
      congr 1
      funext next
      exact (walk_empty_bind (splitOn_ne_nil path)).symm
    · rw [if_neg (by simp [hempty, hslash])]
      unfold resolve
      rw [hhead, List.splitOn_append_cons_self]
      obtain ⟨left, hleft⟩ := walk_append top MAXSYMLINKS
        (if base.head? = some '/' then top else cwd) (base.splitOn '/')
      exact ⟨left, hleft (path.splitOn '/')⟩

theorem crosses_cons_iff {entries : List (List Char × Node)}
    {name : List Char} : (Node.dir entries).Crosses (name :: names) ↔
      ∃ node, entries.lookup name = some node ∧ node.Crosses names := by
  constructor
  · intro h
    obtain ⟨front, target, hfront, hlink⟩ := h
    cases front with
    | nil => cases hlink
    | cons first front =>
        rw [List.cons_prefix_cons] at hfront
        obtain ⟨rfl, hfront⟩ := hfront
        rw [Node.descend, Option.bind_eq_some_iff] at hlink
        obtain ⟨node, hlookup, hlink⟩ := hlink
        exact ⟨node, hlookup, front, target, hfront, hlink⟩
  · intro h
    obtain ⟨node, hlookup, front, target, hfront, hlink⟩ := h
    refine ⟨name :: front, target, ?_, ?_⟩
    · rw [List.cons_prefix_cons]
      exact ⟨rfl, hfront⟩
    · rw [Node.descend, hlookup]
      exact hlink

/-- The way to a file crosses no link. -/
theorem not_crosses_of_file {node : Node}
    (h : node.descend names = some (.file content)) : ¬ node.Crosses names := by
  induction names generalizing node with
  | nil =>
      rintro ⟨front, target, hfront, hlink⟩
      rw [List.prefix_nil] at hfront
      subst hfront
      rw [h] at hlink
      cases hlink
  | cons name names ih =>
      cases node with
      | file held => cases h
      | link target => cases h
      | dir entries =>
          rw [Node.descend, Option.bind_eq_some_iff] at h
          obtain ⟨node, hlookup, h⟩ := h
          rw [crosses_cons_iff]
          rintro ⟨node', hlookup', hcrosses⟩
          rw [hlookup, Option.some.injEq] at hlookup'
          subst hlookup'
          exact ih h hcrosses

/-- Of components that are empty or ordinary and cross no link, a file is found
along the ordinary ones, and no empty one may follow it. -/
theorem walk_eq_file (h : ∀ component ∈ components,
      component = [] ∨ Ordinary component)
    (hplain : ¬ place.node.Crosses (components.filter (· ≠ []))) :
    (∃ above, walk top links place components = some ⟨.file content, above⟩) ↔
      components.getLast? ≠ some [] ∧
        place.node.descend (components.filter (· ≠ [])) =
          some (.file content) := by
  induction components generalizing place with
  | nil =>
      rw [walk_nil, List.filter_nil, Node.descend, Option.some.injEq]
      constructor
      · intro hfile
        obtain ⟨above, heq⟩ := hfile
        rw [Option.some.injEq] at heq
        rw [heq]
        exact ⟨by simp, rfl⟩
      · intro hfile
        exact ⟨place.above, by rw [← hfile.2]⟩
  | cons component components ih =>
      have hrest := fun other hother =>
        h other (List.mem_cons_of_mem component hother)
      have hlast : components ≠ [] →
          (component :: components).getLast? = components.getLast? := by
        intro hne
        rw [List.getLast?_cons_of_ne_nil hne]
      cases hnode : place.node with
      | link target =>
          exact absurd ⟨[], target, List.nil_prefix, congrArg some hnode⟩ hplain
      | file held =>
          have hnone : walk top links place (component :: components) =
              none := by
            rw [walk_cons, Place.enter, hnode]
            rfl
          rw [hnone]
          refine iff_of_false (by simp) ?_
          rintro ⟨hend, hdescend⟩
          have hsome : (component :: components).filter (· ≠ []) ≠ [] := by
            intro hnil
            rw [List.filter_eq_nil_iff] at hnil
            have hmem := List.getLast_mem (List.cons_ne_nil component components)
            have hnil' := hnil _ hmem
            rw [decide_eq_true_eq, not_not] at hnil'
            apply hend
            rw [List.getLast?_eq_getLast_of_ne_nil
              (List.cons_ne_nil component components), hnil']
          obtain ⟨name, names, hnames⟩ := List.exists_cons_of_ne_nil hsome
          rw [hnames] at hdescend
          cases hdescend
      | dir entries =>
          obtain hempty | hordinary := h component List.mem_cons_self
          · subst hempty
            rw [List.filter_cons_of_neg (by simp)] at hplain ⊢
            by_cases hnil : components = []
            · subst hnil
              refine iff_of_false ?_ (by simp)
              rintro ⟨above, heq⟩
              rw [walk_cons, Place.enter, hnode] at heq
              simp only [true_or, if_true, Option.bind_some, hnode, walk_nil,
                Option.some.injEq] at heq
              rw [heq] at hnode
              cases hnode
            · rw [walk_empty hnil, hlast hnil, ← hnode]
              exact ih hrest hplain
          · rw [List.filter_cons_of_pos (by simpa using hordinary.1)]
              at hplain ⊢
            have henter := enter_ordinary hnode hordinary
            rw [Node.descend]
            cases hlookup : entries.lookup component with
            | none =>
                rw [hlookup] at henter
                rw [walk_cons, henter]
                simp
            | some node =>
                rw [hlookup, Option.map_some] at henter
                have hbelow : ¬ node.Crosses (components.filter (· ≠ [])) := by
                  intro hcrosses
                  rw [hnode] at hplain
                  exact hplain (crosses_cons_iff.mpr ⟨node, hlookup, hcrosses⟩)
                have hhere : ¬ ∃ target, node = .link target := by
                  intro hlink
                  obtain ⟨target, heq⟩ := hlink
                  exact hbelow ⟨[], target, List.nil_prefix, congrArg some heq⟩
                rw [walk_cons_of_enter henter hhere, Option.bind_some]
                by_cases hnil : components = []
                · subst hnil
                  simp [walk_nil, Node.descend, hordinary.1]
                · rw [hlast hnil]
                  exact ih hrest hbelow

end Walks

end FileTree
