import Mathlib.Data.List.Basic
import Mathlib.Data.List.Nodup

/-!
# Doubly linked lists threaded through an index table

Nodes are named by their index and the two links of a node are read by two
functions `next` and `prev`; the end of a list is one fixed index `stop`.
Nothing is said about how a table stores its links, so a list is carried over
a table update by giving the links the update leaves behind.

`Threaded` constrains every back link except that of the first node. A list
that is only ever popped keeps this form; `Linked` adds the missing link.
-/

namespace ChaoOS.IndexList

set_option autoImplicit false

variable {Node : Type*}

/-- From `head` the forward links visit exactly `nodes`, in order, and then
the end mark. -/
def Follows (next : Node → Node) (stop : Node) : Node → List Node → Prop
  | head, [] => head = stop
  | head, node :: rest => head = node ∧ node ≠ stop ∧ Follows next stop (next node) rest

/-- Every node's back link names the node before it; the first one names `before`. -/
def BackLinked (prev : Node → Node) : Node → List Node → Prop
  | _, [] => True
  | before, node :: rest => prev node = before ∧ BackLinked prev node rest

/-- A list whose first back link is left open. -/
structure Threaded (next prev : Node → Node) (stop head : Node) (nodes : List Node) : Prop where
  follows : Follows next stop head nodes
  nodup : nodes.Nodup
  back : BackLinked prev (prev head) nodes

/-- A list with all its links, the first node's back link being the end mark. -/
structure Linked (next prev : Node → Node) (stop head : Node) (nodes : List Node) : Prop where
  follows : Follows next stop head nodes
  nodup : nodes.Nodup
  back : BackLinked prev stop nodes

section Links

variable {next prev next' prev' : Node → Node} {stop head before node : Node}
  {nodes : List Node}

theorem follows_nil_iff (follows : Follows next stop head nodes) : nodes = [] ↔ head = stop := by
  cases nodes with
  | nil => simpa [Follows] using follows
  | cons first rest =>
      have same := follows.1
      have inside := follows.2.1
      simp [same, inside]

theorem follows_ne_stop (follows : Follows next stop head nodes) (member : node ∈ nodes) :
    node ≠ stop := by
  induction nodes generalizing head with
  | nil => simp at member
  | cons first rest induction =>
      rcases List.mem_cons.mp member with rfl | later
      · exact follows.2.1
      · exact induction follows.2.2 later

theorem follows_head_mem (follows : Follows next stop head nodes) (inside : head ≠ stop) :
    head ∈ nodes := by
  cases nodes with
  | nil => exact absurd follows inside
  | cons first rest => simp [follows.1]

/-- The successor of a listed node is listed, or is the end mark. -/
theorem follows_next_mem (follows : Follows next stop head nodes) (member : node ∈ nodes) :
    next node ∈ nodes ∨ next node = stop := by
  induction nodes generalizing head with
  | nil => simp at member
  | cons first rest induction =>
      rcases List.mem_cons.mp member with rfl | later
      · by_cases last : next node = stop
        · exact Or.inr last
        · exact Or.inl (List.mem_cons_of_mem _ (follows_head_mem follows.2.2 last))
      · rcases induction follows.2.2 later with listed | last
        · exact Or.inl (List.mem_cons_of_mem _ listed)
        · exact Or.inr last

theorem follows_congr (follows : Follows next stop head nodes)
    (same : ∀ item ∈ nodes, next' item = next item) : Follows next' stop head nodes := by
  induction nodes generalizing head with
  | nil => exact follows
  | cons first rest induction =>
      refine ⟨follows.1, follows.2.1, ?_⟩
      rw [same first (by simp)]
      exact induction follows.2.2 fun item member => same item (List.mem_cons_of_mem _ member)

/-- The forward links determine the listed nodes. -/
theorem follows_unique {other : List Node} (left : Follows next stop head nodes)
    (right : Follows next stop head other) : nodes = other := by
  induction nodes generalizing head other with
  | nil =>
      cases other with
      | nil => rfl
      | cons first rest => exact absurd (right.1.symm.trans left) right.2.1
  | cons first rest induction =>
      cases other with
      | nil => exact absurd (left.1.symm.trans right) left.2.1
      | cons second others =>
          have same : first = second := left.1.symm.trans right.1
          subst same
          rw [induction left.2.2 right.2.2]

theorem follows_from_member (follows : Follows next stop head nodes) (member : node ∈ nodes) :
    ∃ rest, Follows next stop node rest ∧ rest.length ≤ nodes.length := by
  induction nodes generalizing head with
  | nil => exact absurd member List.not_mem_nil
  | cons first rest induction =>
      rcases List.mem_cons.mp member with same | later
      · refine ⟨first :: rest, ?_, Nat.le_refl _⟩
        rw [same]
        exact ⟨rfl, follows.2⟩
      · rcases induction follows.2.2 later with ⟨tail, tailFollows, shorter⟩
        exact ⟨tail, tailFollows, Nat.le_succ_of_le shorter⟩

/-- Forward links that reach the end mark do not visit a node twice. -/
theorem follows_nodup (follows : Follows next stop head nodes) : nodes.Nodup := by
  induction nodes generalizing head with
  | nil => exact List.nodup_nil
  | cons first rest induction =>
      refine List.nodup_cons.mpr ⟨?_, induction follows.2.2⟩
      intro again
      rcases follows_from_member follows.2.2 again with ⟨tail, tailFollows, shorter⟩
      have whole : Follows next stop first (first :: rest) := ⟨rfl, follows.2⟩
      have same := follows_unique whole tailFollows
      rw [← same, List.length_cons] at shorter
      omega

/-- A node with a predecessor is passed over by sending that predecessor on. -/
theorem follows_skip {front back : List Node} {last : Node}
    (follows : Follows next stop head (front ++ last :: node :: back))
    (sent : next' last = next node)
    (same : ∀ item ∈ front ++ back, next' item = next item) :
    Follows next' stop head (front ++ last :: back) := by
  induction front generalizing head with
  | nil =>
      obtain ⟨first, inside, -, -, tail⟩ := follows
      refine ⟨first, inside, ?_⟩
      rw [sent]
      exact follows_congr tail same
  | cons first rest induction =>
      obtain ⟨here, inside, tail⟩ := follows
      refine ⟨here, inside, ?_⟩
      rw [same first (by simp)]
      exact induction tail fun item member => same item (List.mem_cons_of_mem _ member)

theorem back_linked_congr (back : BackLinked prev before nodes)
    (same : ∀ item ∈ nodes, prev' item = prev item) : BackLinked prev' before nodes := by
  induction nodes generalizing before with
  | nil => trivial
  | cons first rest induction =>
      refine ⟨(same first (by simp)).trans back.1, ?_⟩
      exact induction back.2 fun item member => same item (List.mem_cons_of_mem _ member)

/-- The predecessor of a listed node is listed, or is the mark before the list. -/
theorem back_linked_prev_mem (back : BackLinked prev before nodes) (member : node ∈ nodes) :
    prev node = before ∨ prev node ∈ nodes := by
  induction nodes generalizing before with
  | nil => simp at member
  | cons first rest induction =>
      rcases List.mem_cons.mp member with rfl | later
      · exact Or.inl back.1
      · rcases induction back.2 later with same | listed
        · exact Or.inr (by simp [same])
        · exact Or.inr (List.mem_cons_of_mem _ listed)

theorem back_linked_of_head (follows : Follows next stop head nodes)
    (back : BackLinked prev before nodes) : BackLinked prev (prev head) nodes := by
  cases nodes with
  | nil => trivial
  | cons first rest => exact ⟨by rw [follows.1], back.2⟩

/-- A predecessor read off a list is listed or is the end mark, once the first
node's back link is known. -/
theorem Threaded.prev_mem (threaded : Threaded next prev stop head nodes) (member : node ∈ nodes)
    (anchored : head = node → prev node = stop) : prev node = stop ∨ prev node ∈ nodes := by
  have follows := threaded.follows
  have back := threaded.back
  cases nodes with
  | nil => simp at member
  | cons first rest =>
      rcases List.mem_cons.mp member with here | later
      · exact Or.inl (anchored (follows.1.trans here.symm))
      · rcases back_linked_prev_mem back.2 later with same | listed
        · exact Or.inr (by simp [same])
        · exact Or.inr (List.mem_cons_of_mem _ listed)

theorem Linked.threaded (linked : Linked next prev stop head nodes) :
    Threaded next prev stop head nodes :=
  ⟨linked.follows, linked.nodup, back_linked_of_head linked.follows linked.back⟩

theorem Threaded.linked (threaded : Threaded next prev stop head nodes)
    (anchored : head ≠ stop → prev head = stop) : Linked next prev stop head nodes := by
  refine ⟨threaded.follows, threaded.nodup, ?_⟩
  cases nodes with
  | nil => trivial
  | cons first rest =>
      have same := threaded.follows.1
      have inside := threaded.follows.2.1
      have link := anchored (by rw [same]; exact inside)
      have back := threaded.back
      rw [link] at back
      exact back

theorem Linked.anchored (linked : Linked next prev stop head nodes) (inside : head ≠ stop) :
    prev head = stop := by
  cases nodes with
  | nil => exact absurd linked.follows inside
  | cons first rest =>
      rw [linked.follows.1]
      exact linked.back.1

/-- Only the first node has the end mark as its back link. -/
theorem Linked.head_of_prev (linked : Linked next prev stop head nodes) (member : node ∈ nodes)
    (last : prev node = stop) : head = node := by
  cases nodes with
  | nil => exact absurd member List.not_mem_nil
  | cons first rest =>
      rcases List.mem_cons.mp member with same | later
      · rw [same]
        exact linked.follows.1
      · exfalso
        rcases back_linked_prev_mem linked.back.2 later with before | before
        · exact linked.follows.2.1 (before.symm.trans last)
        · rw [last] at before
          exact follows_ne_stop linked.follows (List.mem_cons_of_mem first before) rfl

theorem Threaded.congr (threaded : Threaded next prev stop head nodes)
    (sameNext : ∀ item ∈ nodes, next' item = next item)
    (samePrev : ∀ item ∈ nodes, prev' item = prev item) :
    Threaded next' prev' stop head nodes := by
  have follows := follows_congr threaded.follows sameNext
  exact ⟨follows, threaded.nodup,
    back_linked_of_head follows (back_linked_congr threaded.back samePrev)⟩

theorem Linked.congr (linked : Linked next prev stop head nodes)
    (sameNext : ∀ item ∈ nodes, next' item = next item)
    (samePrev : ∀ item ∈ nodes, prev' item = prev item) :
    Linked next' prev' stop head nodes :=
  ⟨follows_congr linked.follows sameNext, linked.nodup, back_linked_congr linked.back samePrev⟩

theorem threaded_nil : Threaded next prev stop stop [] :=
  ⟨rfl, List.nodup_nil, trivial⟩

/-- Dropping the first node asks nothing of the back links, which is why the
new first node may be left with a stale one. -/
theorem Threaded.pop {rest : List Node} (threaded : Threaded next prev stop head (node :: rest)) :
    Threaded next prev stop (next head) rest := by
  have same := threaded.follows.1
  subst same
  have follows := threaded.follows.2.2
  exact ⟨follows, (List.nodup_cons.mp threaded.nodup).2,
    back_linked_of_head follows threaded.back.2⟩

theorem Threaded.push (threaded : Threaded next prev stop head nodes)
    (fresh : node ∉ nodes) (inside : node ≠ stop)
    (ownNext : next' node = head) (sameNext : ∀ item ∈ nodes, next' item = next item)
    (headPrev : head ≠ stop → prev' head = node)
    (samePrev : ∀ item ∈ nodes, item ≠ head → prev' item = prev item) :
    Threaded next' prev' stop node (node :: nodes) := by
  refine ⟨⟨rfl, inside, ?_⟩, List.nodup_cons.mpr ⟨fresh, threaded.nodup⟩, rfl, ?_⟩
  · rw [ownNext]
    exact follows_congr threaded.follows sameNext
  · have follows := threaded.follows
    have nodup := threaded.nodup
    have back := threaded.back
    cases nodes with
    | nil => trivial
    | cons first rest =>
        obtain ⟨same, notStop, _⟩ := follows
        subst same
        refine ⟨headPrev notStop, back_linked_congr back.2 ?_⟩
        intro item member
        have different : item ≠ head := by
          rintro rfl
          exact (List.nodup_cons.mp nodup).1 member
        exact samePrev item (List.mem_cons_of_mem _ member) different

theorem Linked.push (linked : Linked next prev stop head nodes)
    (fresh : node ∉ nodes) (inside : node ≠ stop)
    (ownNext : next' node = head) (sameNext : ∀ item ∈ nodes, next' item = next item)
    (ownPrev : prev' node = stop) (headPrev : head ≠ stop → prev' head = node)
    (samePrev : ∀ item ∈ nodes, item ≠ head → prev' item = prev item) :
    Linked next' prev' stop node (node :: nodes) :=
  (linked.threaded.push fresh inside ownNext sameNext headPrev samePrev).linked fun _ => ownPrev

end Links

section Unlink

variable [DecidableEq Node] {next prev next' prev' : Node → Node}
  {stop head before node : Node} {nodes : List Node}

/-- Forward half of taking a node out: its predecessor is sent to its successor. -/
theorem follows_erase (follows : Follows next stop head nodes) (nodup : nodes.Nodup)
    (back : BackLinked prev before nodes) (member : node ∈ nodes)
    (links : ∀ item ∈ nodes, item ≠ node →
      next' item = if item = prev node then next node else next item)
    (headOut : head = node → prev node ∉ nodes) :
    Follows next' stop (if head = node then next node else head) (nodes.erase node) := by
  induction nodes generalizing head before with
  | nil => simp at member
  | cons first rest induction =>
      obtain ⟨same, inside, tail⟩ := follows
      subst same
      obtain ⟨headFresh, restNodup⟩ := List.nodup_cons.mp nodup
      by_cases here : head = node
      · subst here
        rw [if_pos rfl, List.erase_cons_head]
        apply follows_congr tail
        intro item listed
        have outside := headOut rfl
        have different : item ≠ head := by
          rintro rfl
          exact headFresh listed
        have notPrev : item ≠ prev head := by
          rintro rfl
          exact outside (List.mem_cons_of_mem _ listed)
        rw [links item (List.mem_cons_of_mem _ listed) different, if_neg notPrev]
      · have later : node ∈ rest := (List.mem_cons.mp member).resolve_left fun equal => here equal.symm
        rw [if_neg here, List.erase_cons_tail (by simpa using here)]
        refine ⟨rfl, inside, ?_⟩
        have prevOfNext : next head = node → prev node = head := by
          intro equal
          cases rest with
          | nil => simp at later
          | cons second others =>
              have second_eq : node = second := equal.symm.trans tail.1
              rw [second_eq]
              exact back.2.1
        have prevInRest : next head ≠ node → prev node ∈ rest := by
          intro different
          cases rest with
          | nil => simp at later
          | cons second others =>
              have notSecond : node ≠ second := fun equal => different (tail.1.trans equal.symm)
              have deeper := (List.mem_cons.mp later).resolve_left notSecond
              rcases back_linked_prev_mem back.2.2 deeper with equal | listed
              · simp [equal]
              · exact List.mem_cons_of_mem _ listed
        have step := induction tail restNodup back.2 later
          (fun item listed different => links item (List.mem_cons_of_mem _ listed) different)
          (by
            intro equal
            rw [prevOfNext equal]
            exact headFresh)
        have headLink := links head (by simp) here
        by_cases adjacent : next head = node
        · rw [if_pos adjacent] at step
          rw [headLink, if_pos (prevOfNext adjacent).symm]
          exact step
        · have notPrev : head ≠ prev node := by
            intro equal
            exact headFresh (equal ▸ prevInRest adjacent)
          rw [if_neg adjacent] at step
          rw [headLink, if_neg notPrev]
          exact step

/-- Backward half: the successor is sent back to the predecessor. -/
theorem back_linked_erase (follows : Follows next stop head nodes) (nodup : nodes.Nodup)
    (back : BackLinked prev before nodes) (member : node ∈ nodes)
    (links : ∀ item ∈ nodes, item ≠ node →
      prev' item = if item = next node then prev node else prev item) :
    BackLinked prev' before (nodes.erase node) := by
  induction nodes generalizing head before with
  | nil => simp at member
  | cons first rest induction =>
      obtain ⟨same, inside, tail⟩ := follows
      subst same
      obtain ⟨headFresh, restNodup⟩ := List.nodup_cons.mp nodup
      by_cases here : head = node
      · subst here
        rw [List.erase_cons_head]
        cases rest with
        | nil => trivial
        | cons second others =>
            obtain ⟨nextHead, _, deeper⟩ := tail
            obtain ⟨secondFresh, _⟩ := List.nodup_cons.mp restNodup
            have secondNe : second ≠ head := by
              rintro rfl
              exact headFresh (by simp)
            refine ⟨?_, back_linked_congr back.2.2 ?_⟩
            · rw [links second (by simp) secondNe, if_pos nextHead.symm]
              exact back.1
            · intro item listed
              have notHead : item ≠ head := by
                rintro rfl
                exact headFresh (List.mem_cons_of_mem _ listed)
              have notSecond : item ≠ next head := by
                rw [nextHead]
                rintro rfl
                exact secondFresh listed
              rw [links item (by simp [listed]) notHead, if_neg notSecond]
      · have later : node ∈ rest := (List.mem_cons.mp member).resolve_left fun equal => here equal.symm
        rw [List.erase_cons_tail (by simpa using here)]
        have notNext : head ≠ next node := by
          intro equal
          rcases follows_next_mem tail later with listed | last
          · exact headFresh (equal ▸ listed)
          · exact inside (equal.trans last)
        refine ⟨?_, ?_⟩
        · rw [links head (by simp) here, if_neg notNext]
          exact back.1
        · exact induction tail restNodup back.2 later
            fun item listed different => links item (List.mem_cons_of_mem _ listed) different

/-- A node is taken out by sending its two neighbours to each other, and by
moving the head past it when its back link is the end mark. This is right for
the first node exactly when its own back link is the end mark. -/
theorem Threaded.unlink (threaded : Threaded next prev stop head nodes) (member : node ∈ nodes)
    (anchored : head = node → prev node = stop)
    (sentNext : ∀ item ∈ nodes, item ≠ node →
      next' item = if item = prev node then next node else next item)
    (sentPrev : ∀ item ∈ nodes, item ≠ node →
      prev' item = if item = next node then prev node else prev item) :
    Threaded next' prev' stop (if prev node = stop then next node else head)
      (nodes.erase node) := by
  have stopOut : stop ∉ nodes := fun listed => follows_ne_stop threaded.follows listed rfl
  have headMark : (if prev node = stop then next node else head) =
      if head = node then next node else head := by
    by_cases here : head = node
    · rw [if_pos here, if_pos (anchored here)]
    · have notStop : prev node ≠ stop := by
        have back := threaded.back
        have follows := threaded.follows
        cases nodes with
        | nil => simp at member
        | cons first rest =>
            have later : node ∈ rest :=
              (List.mem_cons.mp member).resolve_left fun equal => here (follows.1.trans equal.symm)
            rcases back_linked_prev_mem back.2 later with equal | listed
            · rw [equal]
              exact follows.2.1
            · intro equal
              exact stopOut (equal ▸ List.mem_cons_of_mem _ listed)
      rw [if_neg here, if_neg notStop]
  rw [headMark]
  have follows := follows_erase threaded.follows threaded.nodup threaded.back member sentNext
    (fun here => by rw [anchored here]; exact stopOut)
  exact ⟨follows, threaded.nodup.erase node, back_linked_of_head follows
    (back_linked_erase threaded.follows threaded.nodup threaded.back member sentPrev)⟩

theorem Linked.unlink (linked : Linked next prev stop head nodes) (member : node ∈ nodes)
    (sentNext : ∀ item ∈ nodes, item ≠ node →
      next' item = if item = prev node then next node else next item)
    (sentPrev : ∀ item ∈ nodes, item ≠ node →
      prev' item = if item = next node then prev node else prev item) :
    Linked next' prev' stop (if prev node = stop then next node else head)
      (nodes.erase node) := by
  have anchored : head = node → prev node = stop := by
    intro here
    rw [← here]
    exact linked.anchored (here ▸ follows_ne_stop linked.follows member)
  have threaded := linked.threaded.unlink member anchored sentNext sentPrev
  exact ⟨threaded.follows, threaded.nodup,
    back_linked_erase linked.follows linked.nodup linked.back member sentPrev⟩

end Unlink

end ChaoOS.IndexList
