import Mathlib.Data.List.Infix
import Mathlib.Data.List.Nodup

/-!
# Forests of parent pointers

Every known node has a pointer to its parent and a label for the way from the parent to it.  A
root points to itself.  Nothing guarantees that the pointers lead to a root: they may lead to a
node that is not known, or around in a circle.

`Rooted` is the good case, with the nodes on the way up and the labels on the way down.  `Climb`
describes the walk that follows pointers until it would repeat itself or leave the known nodes,
and `climb` is that walk with fuel.
-/

namespace Uqda.Graph

variable {κ π : Type}

/-- The parent of a known node, and the label on the way down from there. -/
abbrev Pointers (κ π : Type) := κ → Option (κ × π)

/-- The pointers lead from a node to a root: the nodes on the way up, and the labels down. -/
inductive Rooted (up : Pointers κ π) : κ → List κ → List π → Prop
  | root {node : κ} {label : π} : up node = some (node, label) → Rooted up node [node] []
  | child {node parent : κ} {label : π} {nodes : List κ} {labels : List π} :
      up node = some (parent, label) → parent ≠ node → Rooted up parent nodes labels →
        Rooted up node (node :: nodes) (labels ++ [label])

variable {up up' : Pointers κ π} {node other parent : κ} {label : π} {nodes nodes' : List κ}
  {labels labels' : List π}

namespace Rooted

theorem unique (rooted : Rooted up node nodes labels) (rooted' : Rooted up node nodes' labels') :
    nodes = nodes' ∧ labels = labels' := by
  induction rooted generalizing nodes' labels' with
  | root pointer =>
      cases rooted' with
      | root => exact ⟨rfl, rfl⟩
      | child pointer' different =>
          rw [pointer] at pointer'
          cases pointer'
          exact absurd rfl different
  | child pointer different rest ih =>
      cases rooted' with
      | root pointer' =>
          rw [pointer] at pointer'
          cases pointer'
          exact absurd rfl different
      | child pointer' different' rest' =>
          rw [pointer] at pointer'
          cases pointer'
          obtain ⟨rfl, rfl⟩ := ih rest'
          exact ⟨rfl, rfl⟩

theorem length_nodes (rooted : Rooted up node nodes labels) : nodes.length = labels.length + 1 := by
  induction rooted with
  | root => rfl
  | child _ _ _ ih => rw [List.length_cons, ih, List.length_append, List.length_singleton]

theorem head (rooted : Rooted up node nodes labels) : nodes.head? = some node := by
  cases rooted with
  | root => rfl
  | child => rfl

theorem self_mem (rooted : Rooted up node nodes labels) : node ∈ nodes :=
  List.mem_of_mem_head? rooted.head

/-- The nodes on the way up are rooted as well. -/
theorem of_mem (rooted : Rooted up node nodes labels) (above : other ∈ nodes) :
    ∃ nodes' labels', Rooted up other nodes' labels' ∧ nodes' <:+ nodes ∧ labels' <+: labels := by
  induction rooted with
  | root pointer =>
      obtain rfl := List.mem_singleton.mp above
      exact ⟨_, _, .root pointer, List.suffix_rfl, List.prefix_rfl⟩
  | child pointer different rest ih =>
      rcases List.mem_cons.mp above with rfl | above
      · exact ⟨_, _, .child pointer different rest, List.suffix_rfl, List.prefix_rfl⟩
      · obtain ⟨nodes', labels', rooted, nodesEnd, labelsStart⟩ := ih above
        exact ⟨nodes', labels', rooted, nodesEnd.trans (List.suffix_cons _ _),
          labelsStart.trans (List.prefix_append _ _)⟩

/-- No node is met twice on the way up. -/
theorem nodup (rooted : Rooted up node nodes labels) : nodes.Nodup := by
  induction rooted with
  | root => exact List.nodup_singleton _
  | child pointer different rest ih =>
      apply List.nodup_cons.mpr
      refine ⟨fun above => ?_, ih⟩
      obtain ⟨nodes', labels', again, shorter, -⟩ := rest.of_mem above
      obtain ⟨rfl, -⟩ := again.unique (.child pointer different rest)
      have := shorter.length_le
      rw [List.length_cons] at this
      omega

/-- Only the pointers on the way up matter. -/
theorem congr (rooted : Rooted up node nodes labels)
    (agree : ∀ other ∈ nodes, up' other = up other) :
    Rooted up' node nodes labels := by
  induction rooted with
  | root pointer => exact .root ((agree _ (List.mem_singleton_self _)).trans pointer)
  | child pointer different _ ih =>
      exact .child ((agree _ List.mem_cons_self).trans pointer) different
        (ih fun other above => agree other (List.mem_cons_of_mem _ above))

/-- The way from the parent continues to the child. -/
theorem parent_cases (rooted : Rooted up node nodes labels) :
    (∃ label, up node = some (node, label) ∧ nodes = [node] ∧ labels = []) ∨
      ∃ parent label nodes' labels', up node = some (parent, label) ∧ parent ≠ node ∧
        Rooted up parent nodes' labels' ∧ nodes = node :: nodes' ∧ labels = labels' ++ [label] := by
  cases rooted with
  | root pointer => exact .inl ⟨_, pointer, rfl, rfl⟩
  | child pointer different rest => exact .inr ⟨_, _, _, _, pointer, different, rest, rfl, rfl⟩

/-- The last node on the way up points to itself. -/
theorem getLast_root (rooted : Rooted up node nodes labels) :
    ∃ root label, nodes.getLast? = some root ∧ up root = some (root, label) := by
  induction rooted with
  | root pointer => exact ⟨_, _, rfl, pointer⟩
  | child _ _ rest ih =>
      obtain ⟨root, label, last, pointer⟩ := ih
      refine ⟨root, label, ?_, pointer⟩
      rw [List.getLast?_cons, last]
      rfl

/-- What a parent inherits is inherited by all nodes on the way up. -/
theorem forall_mem {property : κ → Prop} (rooted : Rooted up node nodes labels)
    (start : property node)
    (inherited : ∀ {node parent label}, property node → up node = some (parent, label) →
      property parent) : ∀ other ∈ nodes, property other := by
  induction rooted with
  | root =>
      intro other above
      obtain rfl := List.mem_singleton.mp above
      exact start
  | child pointer _ _ ih =>
      intro other above
      rcases List.mem_cons.mp above with rfl | above
      · exact start
      · exact ih (inherited start pointer) other above

/-- The labels down from a root belong to one node only, if siblings have different labels. -/
theorem inj (distinct : ∀ {node other parent label}, up node = some (parent, label) →
      up other = some (parent, label) → parent ≠ node → parent ≠ other → node = other)
    (rooted : Rooted up node nodes labels) (rooted' : Rooted up other nodes' labels)
    (sameRoot : nodes.getLast? = nodes'.getLast?) : node = other := by
  induction rooted generalizing other nodes' with
  | root pointer =>
      rcases rooted'.parent_cases with ⟨-, -, rfl, -⟩ | ⟨_, _, _, _, -, -, -, -, impossible⟩
      · exact Option.some.inj sameRoot
      · simp at impossible
  | @child node parent label nodes labels pointer different rest ih =>
      rcases rooted'.parent_cases with ⟨-, -, -, impossible⟩ |
          ⟨parent', label', above, labels', pointer', different', rest', rfl, same⟩
      · simp at impossible
      · obtain ⟨rfl, sameLabel⟩ := List.append_inj' same rfl
        cases sameLabel
        obtain ⟨root, _, last, -⟩ := rest.getLast_root
        obtain ⟨root', _, last', -⟩ := rest'.getLast_root
        have sameRoot' : nodes.getLast? = above.getLast? := by
          rw [List.getLast?_cons, List.getLast?_cons, last, last'] at sameRoot
          rw [last, last']
          exact sameRoot
        obtain rfl := ih rest' sameRoot'
        exact distinct pointer pointer' different different'

/-- Every start of the labels down to a node leads to a node above it. -/
theorem of_labels {front back : List π} (rooted : Rooted up node nodes (front ++ back)) :
    ∃ other nodes', Rooted up other nodes' front ∧ other ∈ nodes ∧
      nodes'.getLast? = nodes.getLast? := by
  induction back using List.reverseRecOn generalizing node nodes with
  | nil =>
      rw [List.append_nil] at rooted
      exact ⟨node, nodes, rooted, rooted.self_mem, rfl⟩
  | append_singleton back label ih =>
      rcases rooted.parent_cases with ⟨-, -, -, impossible⟩ |
          ⟨parent, label', above, labels', -, -, rest, rfl, same⟩
      · simp at impossible
      · rw [← List.append_assoc] at same
        obtain ⟨rfl, -⟩ := List.append_inj' same rfl
        obtain ⟨other, nodes', rooted', higher, sameRoot⟩ := ih rest
        obtain ⟨root, _, last, -⟩ := rest.getLast_root
        refine ⟨other, nodes', rooted', List.mem_cons_of_mem _ higher, ?_⟩
        rw [sameRoot, List.getLast?_cons, last]
        rfl

end Rooted

/-- A walk up that has been at some nodes goes to more nodes, until it would be at one again or
at one that is not known. -/
inductive Climb (up : Pointers κ π) : List κ → κ → List κ → Prop
  | again {visited : List κ} {node : κ} : node ∈ visited → Climb up visited node []
  | unknown {visited : List κ} {node : κ} : node ∉ visited → up node = none →
      Climb up visited node []
  | step {visited more : List κ} {node parent : κ} {label : π} : node ∉ visited →
      up node = some (parent, label) → Climb up (visited ++ [node]) parent more →
        Climb up visited node (node :: more)

namespace Climb

variable {visited more more' : List κ}

theorem unique (walk : Climb up visited node more) (walk' : Climb up visited node more') :
    more = more' := by
  induction walk generalizing more' with
  | again there =>
      cases walk' with
      | again => rfl
      | unknown => rfl
      | step fresh => exact absurd there fresh
  | unknown _ nothing =>
      cases walk' with
      | again => rfl
      | unknown => rfl
      | step _ pointer =>
          rw [nothing] at pointer
          cases pointer
  | step fresh pointer _ ih =>
      cases walk' with
      | again there => exact absurd there fresh
      | unknown _ nothing =>
          rw [nothing] at pointer
          cases pointer
      | step _ pointer' rest' =>
          rw [pointer] at pointer'
          cases pointer'
          rw [ih rest']

theorem not_mem_visited (walk : Climb up visited node more) : ∀ other ∈ more, other ∉ visited := by
  induction walk with
  | again => exact fun _ absent => absurd absent List.not_mem_nil
  | unknown => exact fun _ absent => absurd absent List.not_mem_nil
  | step fresh _ _ ih =>
      intro other above
      rcases List.mem_cons.mp above with rfl | above
      · exact fresh
      · exact fun before => ih other above (List.mem_append_left _ before)

/-- The walk meets no node twice. -/
theorem nodup (walk : Climb up visited node more) : more.Nodup := by
  induction walk with
  | again => exact List.nodup_nil
  | unknown => exact List.nodup_nil
  | step _ _ rest ih =>
      apply List.nodup_cons.mpr
      refine ⟨fun above => ?_, ih⟩
      exact rest.not_mem_visited _ above (List.mem_append_right _ (List.mem_singleton_self _))

/-- All nodes of the walk are known. -/
theorem known (walk : Climb up visited node more) :
    ∀ other ∈ more, ∃ pointer, up other = some pointer := by
  induction walk with
  | again => exact fun _ absent => absurd absent List.not_mem_nil
  | unknown => exact fun _ absent => absurd absent List.not_mem_nil
  | step _ pointer _ ih =>
      intro other above
      rcases List.mem_cons.mp above with rfl | above
      · exact ⟨_, pointer⟩
      · exact ih other above

/-- A walk goes on to every parent that is known. -/
theorem mem_parent (walk : Climb up visited node more) {key parent : κ} {label : π}
    (here : key ∈ more) (pointer : up key = some (parent, label)) {next : κ × π}
    (known : up parent = some next) : parent ∈ more ∨ parent ∈ visited := by
  induction walk with
  | again => exact absurd here List.not_mem_nil
  | unknown => exact absurd here List.not_mem_nil
  | step _ first rest ih =>
      rcases List.mem_cons.mp here with rfl | later
      · rw [first] at pointer
        cases pointer
        cases rest with
        | again there =>
            rcases List.mem_append.mp there with before | self
            · exact .inr before
            · exact .inl (List.mem_cons.mpr (.inl (List.mem_singleton.mp self)))
        | unknown _ nothing =>
            rw [known] at nothing
            cases nothing
        | step => exact .inl (List.mem_cons_of_mem _ List.mem_cons_self)
      · rcases ih later with above | before
        · exact .inl (List.mem_cons_of_mem _ above)
        · rcases List.mem_append.mp before with before | self
          · exact .inr before
          · exact .inl (List.mem_cons.mpr (.inl (List.mem_singleton.mp self)))

/-- What a parent inherits is inherited by all nodes of the walk. -/
theorem forall_mem {property : κ → Prop} (walk : Climb up visited node more)
    (start : property node)
    (inherited : ∀ {node parent label}, property node → up node = some (parent, label) →
      property parent) : ∀ other ∈ more, property other := by
  induction walk with
  | again => exact fun _ absent => absurd absent List.not_mem_nil
  | unknown => exact fun _ absent => absurd absent List.not_mem_nil
  | step _ pointer _ ih =>
      intro other above
      rcases List.mem_cons.mp above with rfl | above
      · exact start
      · exact ih (inherited start pointer) other above

/-- A walk from a rooted node ends at its root. -/
theorem of_rooted (rooted : Rooted up node nodes labels)
    (fresh : ∀ other ∈ nodes, other ∉ visited) : Climb up visited node nodes := by
  induction rooted generalizing visited with
  | root pointer =>
      refine .step (fresh _ (List.mem_singleton_self _)) pointer (.again ?_)
      exact List.mem_append_right _ (List.mem_singleton_self _)
  | child pointer different rest ih =>
      refine .step (fresh _ List.mem_cons_self) pointer (ih fun other above before => ?_)
      rcases List.mem_append.mp before with before | before
      · exact fresh other (List.mem_cons_of_mem _ above) before
      · obtain rfl := List.mem_singleton.mp before
        exact (List.nodup_cons.mp (Rooted.child pointer different rest).nodup).1 above

/-- If the walk never leaves the known nodes, only the pointers of the nodes on it matter. -/
theorem congr (walk : Climb up visited node more) (start : node ∈ visited ∨ up node ≠ none)
    (agree : ∀ other ∈ more, up' other = up other)
    (closed : ∀ other ∈ more, ∀ parent label, up other = some (parent, label) → up parent ≠ none) :
    Climb up' visited node more := by
  induction walk with
  | again there => exact .again there
  | unknown fresh nothing =>
      rcases start with there | known
      · exact absurd there fresh
      · exact absurd nothing known
  | step fresh pointer _ ih =>
      refine .step fresh ((agree _ List.mem_cons_self).trans pointer) (ih ?_ ?_ ?_)
      · exact .inr (closed _ List.mem_cons_self _ _ pointer)
      · exact fun other later => agree other (List.mem_cons_of_mem _ later)
      · exact fun other later => closed other (List.mem_cons_of_mem _ later)

end Climb

section Fuel

variable [DecidableEq κ]

/-- The walk, with fuel: the nodes that were visited before and in it. -/
def climb (up : Pointers κ π) : Nat → List κ → κ → List κ
  | 0, visited, _ => visited
  | fuel + 1, visited, node =>
      if node ∈ visited then visited
      else
        match up node with
        | some (parent, _) => climb up fuel (visited ++ [node]) parent
        | none => visited

/-- The walk visits known nodes only, so it is no longer than their number. -/
theorem exists_climb {known : List κ} (bounded : ∀ node, up node ≠ none → node ∈ known)
    (visited : List κ) (node : κ) :
    ∃ more, Climb up visited node more ∧
      more.length ≤ (known.filter fun other => other ∉ visited).length := by
  generalize size : (known.filter fun other => other ∉ visited).length = count
  induction count using Nat.strong_induction_on generalizing visited node with
  | _ count ih =>
      by_cases there : node ∈ visited
      · exact ⟨[], .again there, Nat.zero_le _⟩
      · cases pointer : up node with
        | none => exact ⟨[], .unknown there pointer, Nat.zero_le _⟩
        | some pair =>
            obtain ⟨parent, label⟩ := pair
            have isKnown : node ∈ known :=
              bounded node (by rw [pointer]; exact Option.some_ne_none _)
            have fewer : (known.filter fun other => other ∉ visited ++ [node]).length < count := by
              rw [← size]
              have split : (known.filter fun other => decide (other ∉ visited ++ [node])) =
                  (known.filter fun other => decide (other ∉ visited)).filter
                    fun other => decide (other ≠ node) := by
                rw [List.filter_filter]
                apply List.filter_congr
                intro other _
                simp [not_or, and_comm]
              rw [split]
              apply List.length_filter_lt_length_iff_exists.mpr
              exact ⟨node, List.mem_filter.mpr ⟨isKnown, by simpa using there⟩, by simp⟩
            obtain ⟨more, walk, short⟩ := ih _ fewer (visited ++ [node]) parent rfl
            refine ⟨node :: more, .step there pointer walk, ?_⟩
            rw [List.length_cons]
            omega

/-- With enough fuel it is the whole walk. -/
theorem climb_eq {visited more : List κ} {fuel : Nat} (walk : Climb up visited node more)
    (enough : more.length ≤ fuel) : climb up fuel visited node = visited ++ more := by
  induction walk generalizing fuel with
  | again there =>
      cases fuel with
      | zero => simp [climb]
      | succ fuel => simp [climb, there]
  | unknown fresh nothing =>
      cases fuel with
      | zero => simp [climb]
      | succ fuel => simp [climb, fresh, nothing]
  | step fresh pointer _ ih =>
      cases fuel with
      | zero => simp at enough
      | succ fuel =>
          rw [climb, if_neg fresh, pointer]
          simp only
          rw [ih (Nat.le_of_succ_le_succ enough), List.append_assoc, List.singleton_append]

end Fuel

end Uqda.Graph
