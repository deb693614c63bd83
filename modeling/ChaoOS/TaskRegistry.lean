import Mathlib.Data.List.Perm.Lattice
import ChaoOS.HashMapRuns
import ChaoOS.ThreadLifetimes

/-!
# The registry of threads

`tasks_map` and the ring of `tasks` are updated by separate calls. The threads
that have been created and not ended are followed beside the kernel; the map
holds exactly their pids and the ring exactly their nodes. Any live thread may
be the running one when it calls.
-/

namespace ChaoOS.TaskRegistry

open ChaoOS.GuardedRun ChaoOS.HashMapContents ChaoOS.HashMapModel ChaoOS.HashMapRuns
  ChaoOS.KernelMath ChaoOS.LinkedRing ChaoOS.TaskModel ChaoOS.TaskRings ChaoOS.ThreadLifetimes

set_option autoImplicit false

structure Thread where
  pid : Nat
  address : Nat
  deriving DecidableEq, Repr

/-- A kernel, the threads that are live in it and the number of creations. -/
structure Registry where
  kernel : Kernel
  live : List Thread
  created : Nat

inductive RegistryOp where
  | threadCreate (caller fn arg newTask newStack : Nat)
  | threadExit (caller pid : Nat)
  deriving DecidableEq, Repr

def withCaller (kernel : Kernel) (caller : Nat) : Kernel :=
  { kernel with currentTask := .task caller }

def registryStep (image : TaskImage) (registry : Registry) : RegistryOp → Option Registry
  | .threadCreate caller fn arg newTask newStack =>
      (threadCreate image fn arg newTask newStack (withCaller registry.kernel caller)).map
        fun answer =>
          { kernel := answer.2
            live := registry.live ++ [⟨answer.1, newTask⟩]
            created := registry.created + 1 }
  | .threadExit caller pid =>
      (threadExit pid (withCaller registry.kernel caller)).map fun kernel =>
        { kernel := kernel
          live := if pid = 0 then registry.live
            else registry.live.filter fun thread => thread.pid ≠ pid
          created := registry.created }

def Live (registry : Registry) (caller : Nat) : Prop :=
  ∃ thread ∈ registry.live, thread.address = caller

instance (registry : Registry) (caller : Nat) : Decidable (Live registry caller) :=
  inferInstanceAs (Decidable (∃ thread ∈ registry.live, thread.address = caller))

/-- The caller is live and does not end itself, and fewer than `2 ^ 32` threads
are created. -/
def CallerLive (registry : Registry) : RegistryOp → Prop
  | .threadCreate caller _ _ _ _ => Live registry caller ∧ registry.created + 1 < wordSize
  | .threadExit caller pid => Live registry caller ∧ ⟨pid, caller⟩ ∉ registry.live

instance (registry : Registry) : (op : RegistryOp) → Decidable (CallerLive registry op)
  | .threadCreate .. => inferInstanceAs (Decidable (_ ∧ _))
  | .threadExit .. => inferInstanceAs (Decidable (_ ∧ _))

def initialRegistry (newTask : Nat) (kernel : Kernel) : Registry where
  kernel := kernel
  live := [⟨0, newTask⟩]
  created := 0

def nodeOf (thread : Thread) : Node := .task thread.address

structure RegistrySound (image : TaskImage) (registry : Registry) : Prop where
  rings : ∃ members, Owned image registry.kernel members ∧
    (members .tasks).Perm (registry.live.map nodeOf)
  stores : ∃ contents, Stores contents registry.kernel.tasksMap ∧
    ∀ pid address, contents.lookup pid = some address ↔ ⟨pid, address⟩ ∈ registry.live
  distinct : (registry.live.map Thread.pid).Nodup
  numbered : ∀ thread ∈ registry.live, thread.pid ≤ registry.created
  counter : registry.kernel.currentPid = (registry.created + 1) % wordSize
  structs : ∀ thread ∈ registry.live, (registry.kernel.task (nodeOf thread)).pid = thread.pid

variable {image : TaskImage} {registry registry' : Registry}

theorem init_registry_sound {boot : Boot} {newTask : Nat} {kernel : Kernel}
    (init : initTask image newTask (bootKernel boot) = some kernel) :
    RegistrySound image (initialRegistry newTask kernel) := by
  obtain ⟨-, inserted, -, -, counter, -, -, -, pid, -⟩ := init_task_cases init
  constructor
  case rings =>
      refine ⟨initialMembers newTask, init_task_owned init, ?_⟩
      rw [initialMembers, Function.update_self]
      exact List.Perm.refl _
  case stores =>
      obtain ⟨stored, -⟩ := map_insert_fresh ∅ 0 newTask mapInit _ map_init_stores.1
        Finmap.notMem_empty inserted
      refine ⟨_, stored, fun key address => ?_⟩
      by_cases zero : key = 0
      · subst zero
        rw [Finmap.lookup_insert, Option.some.injEq]
        simp [initialRegistry, eq_comm]
      · rw [Finmap.lookup_insert_of_ne _ zero, Finmap.lookup_empty]
        simp [initialRegistry, zero]
  case distinct => simp [initialRegistry]
  case numbered => simp [initialRegistry]
  case counter =>
      change kernel.currentPid = (0 + 1) % wordSize
      rw [counter]
      decide
  case structs =>
      intro thread member
      have same : thread = ⟨0, newTask⟩ := by simpa [initialRegistry] using member
      rw [same]
      exact pid

theorem Live.linked {caller : Nat} (live : Live registry caller) {members : Members}
    (listed : (members .tasks).Perm (registry.live.map nodeOf)) :
    Node.task caller ∈ members .tasks := by
  obtain ⟨thread, member, same⟩ := live
  rw [listed.mem_iff, List.mem_map]
  exact ⟨thread, member, congrArg Node.task same⟩

theorem create_sound (sound : RegistrySound image registry)
    {caller fn arg newTask newStack pid : Nat} {kernel : Kernel} (live : Live registry caller)
    (room : registry.created + 1 < wordSize)
    (call : threadCreate image fn arg newTask newStack (withCaller registry.kernel caller) =
      some (pid, kernel)) :
    RegistrySound image
      { kernel := kernel
        live := registry.live ++ [⟨pid, newTask⟩]
        created := registry.created + 1 } := by
  obtain ⟨members, owned, listed⟩ := sound.rings
  obtain ⟨contents, stores, same⟩ := sound.stores
  have linked := live.linked listed
  have owner : Owned image (withCaller registry.kernel caller) members := owned.of_eq rfl rfl rfl
  have created := thread_create_owned owner linked call
  obtain ⟨answer, -, pidEq, inserted, -, -, counter, -, -, -, newPid, -, -, others⟩ :=
    thread_create_cases call
  have count : registry.kernel.currentPid = registry.created + 1 := by
    rw [sound.counter, Nat.mod_eq_of_lt room]
  have named : pid = registry.created + 1 := pidEq.trans count
  have newLive : ∀ address, ⟨pid, address⟩ ∉ registry.live := by
    intro address member
    have small : pid ≤ registry.created := sound.numbered _ member
    omega
  have absent : registry.kernel.currentPid ∉ contents := by
    rw [← Finmap.lookup_eq_none, Option.eq_none_iff_forall_ne_some]
    intro address found
    rw [same, count, ← named] at found
    exact newLive address found
  constructor
  case rings =>
      refine ⟨_, created, ?_⟩
      rw [Function.update_self, List.map_append]
      have extended := (insert_before_perm (.task caller) (.task newTask) (members .tasks)).trans
        (listed.cons (Node.task newTask))
      exact extended.trans (List.perm_append_singleton _ _).symm
  case stores =>
      obtain ⟨stored, -⟩ := map_insert_fresh contents _ newTask _ _ stores absent inserted
      refine ⟨_, stored, fun key address => ?_⟩
      rw [count, ← named, List.mem_append, List.mem_singleton]
      by_cases new : key = pid
      · subst new
        rw [Finmap.lookup_insert, Option.some.injEq]
        simp [newLive address, eq_comm]
      · rw [Finmap.lookup_insert_of_ne _ new, same]
        simp [new]
  case distinct =>
      rw [List.map_append, List.nodup_append]
      refine ⟨sound.distinct, by simp, ?_⟩
      intro old member new fresh equal
      obtain ⟨thread, listedOld, oldPid⟩ := List.mem_map.mp member
      have newPid : new = pid := by simpa using fresh
      apply newLive thread.address
      rw [← newPid, ← equal, ← oldPid]
      exact listedOld
  case numbered =>
      intro thread member
      rcases List.mem_append.mp member with old | new
      · exact Nat.le_succ_of_le (sound.numbered thread old)
      · rw [List.mem_singleton.mp new, named]
  case counter =>
      change kernel.currentPid = _
      rw [counter, add32]
      change (registry.kernel.currentPid + 1) % wordSize = _
      rw [count]
  case structs =>
      intro thread member
      change (kernel.task (nodeOf thread)).pid = thread.pid
      rcases List.mem_append.mp member with old | new
      · have held : nodeOf thread ∈ members .tasks := by
          rw [listed.mem_iff]
          exact List.mem_map_of_mem old
        have other : nodeOf thread ≠ .task newTask := by
          intro equal
          exact owned.fresh answer.2.2.2 .tasks (List.mem_cons_of_mem _ (equal ▸ held))
        rw [others _ other]
        exact sound.structs thread old
      · rw [List.mem_singleton.mp new]
        exact newPid.trans pidEq.symm

/-- Threads are told apart by their pids and by their structs. -/
theorem RegistrySound.pid_iff_address (sound : RegistrySound image registry) {thread other : Thread}
    (member : thread ∈ registry.live) (otherMember : other ∈ registry.live) :
    thread.pid = other.pid ↔ thread.address = other.address := by
  obtain ⟨members, owned, listed⟩ := sound.rings
  have nodes : (registry.live.map nodeOf).Nodup :=
    listed.nodup_iff.mp (owned.family.members_nodup .tasks)
  constructor
  · intro same
    rw [List.inj_on_of_nodup_map sound.distinct member otherMember same]
  · intro same
    rw [List.inj_on_of_nodup_map nodes member otherMember (congrArg Node.task same)]

/-- What `map_find` tells `thread_exit`. -/
theorem RegistrySound.find (sound : RegistrySound image registry) {pid old : Nat}
    {answer : Nat × Nat} (call : mapFind pid old registry.kernel.tasksMap = some answer) :
    (∀ address, ⟨pid, address⟩ ∈ registry.live → answer = (1, address)) ∧
      ((∀ address, ⟨pid, address⟩ ∉ registry.live) → answer = (0, old)) := by
  obtain ⟨contents, stores, same⟩ := sound.stores
  have found := stores.find call
  constructor
  · intro address member
    rw [(same pid address).mpr member] at found
    exact found
  · intro missing
    have none_stored : contents.lookup pid = none := by
      rw [Option.eq_none_iff_forall_ne_some]
      intro address stored
      exact missing address ((same pid address).mp stored)
    rw [none_stored] at found
    exact found

theorem RegistrySound.found_live (sound : RegistrySound image registry) {pid found task : Nat}
    (call : mapFind pid 0 registry.kernel.tasksMap = some (found, task)) (present : found ≠ 0) :
    ⟨pid, task⟩ ∈ registry.live := by
  obtain ⟨registered, unknown⟩ := sound.find call
  by_cases missing : ∀ address, ⟨pid, address⟩ ∉ registry.live
  · exact absurd (Prod.mk.inj (unknown missing)).1 present
  · rw [not_forall] at missing
    obtain ⟨address, member⟩ := missing
    have listed := not_not.mp member
    rw [(Prod.mk.inj (registered address listed)).2]
    exact listed

/-- The threads left when the one with a given pid has been taken out. -/
theorem RegistrySound.ring_without (sound : RegistrySound image registry) {pid task : Nat}
    (live : ⟨pid, task⟩ ∈ registry.live) {members : Members}
    (owned : Owned image registry.kernel members)
    (listed : (members .tasks).Perm (registry.live.map nodeOf)) :
    ((members .tasks).erase (.task task)).Perm
      ((registry.live.filter fun thread => thread.pid ≠ pid).map nodeOf) := by
  have distinct := owned.family.members_nodup .tasks
  have nodes : (registry.live.map nodeOf).Nodup := listed.nodup_iff.mp distinct
  rw [List.perm_ext_iff_of_nodup (distinct.erase _)
    (nodes.sublist (List.filter_sublist.map nodeOf))]
  intro node
  rw [distinct.mem_erase_iff, listed.mem_iff]
  simp only [List.mem_map, List.mem_filter, decide_eq_true_eq]
  constructor
  · rintro ⟨other, thread, member, same⟩
    refine ⟨thread, ⟨member, fun equal => other ?_⟩, same⟩
    rw [← same]
    exact congrArg Node.task ((sound.pid_iff_address member live).mp equal)
  · rintro ⟨thread, ⟨member, other⟩, same⟩
    refine ⟨fun equal => other ?_, thread, member, same⟩
    exact (sound.pid_iff_address member live).mpr (Node.task.inj (same.trans equal))

theorem exit_sound (sound : RegistrySound image registry) {caller pid : Nat} {kernel : Kernel}
    (call : threadExit pid (withCaller registry.kernel caller) = some kernel) :
    RegistrySound image
      { kernel := kernel
        live := if pid = 0 then registry.live
          else registry.live.filter fun thread => thread.pid ≠ pid
        created := registry.created } := by
  obtain ⟨members, owned, listed⟩ := sound.rings
  have owner : Owned image (withCaller registry.kernel caller) members := owned.of_eq rfl rfl rfl
  rcases thread_exit_cases call with ⟨same, unknown⟩ |
    ⟨found, task, nonzero, present, answer, deleted, links, heap, structs, -, -, counter⟩
  · have unchanged : (if pid = 0 then registry.live
        else registry.live.filter fun thread => thread.pid ≠ pid) = registry.live := by
      split_ifs with zero
      · rfl
      · obtain ⟨value, answer⟩ := unknown.resolve_left zero
        rw [List.filter_eq_self]
        intro thread member
        rw [decide_eq_true_eq]
        intro equal
        have registered := (sound.find answer).1 thread.address (equal ▸ member)
        exact absurd (Prod.mk.inj registered).1 (by decide)
    rw [unchanged, same]
    exact ⟨⟨members, owner, listed⟩, sound.stores, sound.distinct, sound.numbered, sound.counter,
      sound.structs⟩
  · have live := sound.found_live answer present
    have linked : Node.task task ∈ members .tasks := by
      rw [listed.mem_iff]
      exact List.mem_map_of_mem live
    have fewer : ∀ thread, thread ∈ registry.live.filter (fun thread => thread.pid ≠ pid) ↔
        thread ∈ registry.live ∧ thread.pid ≠ pid := by
      intro thread
      rw [List.mem_filter, decide_eq_true_eq]
    rw [if_neg nonzero]
    constructor
    case rings =>
        refine ⟨_, remove_task_owned owner linked links heap structs, ?_⟩
        rw [Function.update_self]
        exact sound.ring_without live owned listed
    case stores =>
        obtain ⟨contents, stores, same⟩ := sound.stores
        refine ⟨contents.erase pid, (map_delete_stores stores deleted).1, fun key address => ?_⟩
        rw [fewer]
        by_cases gone : key = pid
        · subst gone
          simp [Finmap.lookup_erase]
        · rw [Finmap.lookup_erase_ne gone, same]
          simp [gone]
    case distinct => exact sound.distinct.sublist (List.filter_sublist.map Thread.pid)
    case numbered =>
        intro thread member
        exact sound.numbered thread ((fewer thread).mp member).1
    case counter => exact counter.trans sound.counter
    case structs =>
        intro thread member
        change (kernel.task (nodeOf thread)).pid = thread.pid
        rw [structs]
        exact sound.structs thread ((fewer thread).mp member).1

theorem registry_step_sound (sound : RegistrySound image registry) {op : RegistryOp}
    (allowed : CallerLive registry op) (stepped : registryStep image registry op = some registry') :
    RegistrySound image registry' := by
  cases op with
  | threadCreate caller fn arg newTask newStack =>
      obtain ⟨⟨pid, kernel⟩, call, same⟩ := Option.map_eq_some_iff.mp stepped
      rw [← same]
      exact create_sound sound allowed.1 allowed.2 call
  | threadExit caller pid =>
      obtain ⟨kernel, call, same⟩ := Option.map_eq_some_iff.mp stepped
      rw [← same]
      exact exit_sound sound call

/-- After every run of creations and exits by live threads, the pids are
distinct, the map holds exactly the live threads, and so does the ring; ending
pid 0 or an unknown pid changes nothing. -/
theorem registry_run_agrees (image : TaskImage) (boot : Boot) {newTask : Nat}
    {ops : List RegistryOp} {start : Kernel} {final : Registry}
    (init : initTask image newTask (bootKernel boot) = some start)
    (permitted : Permitted (registryStep image) CallerLive (initialRegistry newTask start) ops)
    (run : runFrom (registryStep image) (initialRegistry newTask start) ops = some final) :
    (final.live.map Thread.pid).Nodup ∧
      (∀ thread ∈ final.live, (final.kernel.task (.task thread.address)).pid = thread.pid) ∧
      (∀ pid address, (∃ slot, slot < final.kernel.tasksMap.capacity ∧
          final.kernel.tasksMap.list slot = ⟨pid, address, .occupied⟩) ↔
        ⟨pid, address⟩ ∈ final.live) ∧
      (∀ pid old answer, mapFind pid old final.kernel.tasksMap = some answer →
        (∀ address, ⟨pid, address⟩ ∈ final.live → answer = (1, address)) ∧
          ((∀ address, ⟨pid, address⟩ ∉ final.live) → answer = (0, old))) ∧
      (∃ members, NodeRing final.kernel.links (.head .tasks :: members) ∧
        members.Perm (final.live.map fun thread => .task thread.address)) ∧
      ∀ pid after, (pid = 0 ∨ ∀ address, ⟨pid, address⟩ ∉ final.live) →
        threadExit pid final.kernel = some after → after = final.kernel := by
  have sound : RegistrySound image final := by
    apply run_invariant _ (init_registry_sound init) permitted run
    intro registry op next sound allowed stepped
    exact registry_step_sound sound allowed stepped
  refine ⟨sound.distinct, sound.structs, ?_, fun pid old answer call => sound.find call, ?_, ?_⟩
  · obtain ⟨contents, stores, same⟩ := sound.stores
    intro pid address
    rw [← stores.listed, same]
  · obtain ⟨members, owned, listed⟩ := sound.rings
    exact ⟨members .tasks, owned.family.ring .tasks, listed⟩
  · intro pid after unknown call
    rcases thread_exit_cases call with ⟨same, -⟩ | ⟨found, task, nonzero, present, answer, -⟩
    · exact same
    · exact absurd (sound.found_live answer present) (unknown.resolve_left nonzero task)

/-- The new thread creates a third one, which ends it. -/
def sampleRegistryOps : List RegistryOp :=
  [.threadCreate 0xC1000000 0xC0102000 7 0xC1000100 0xC1004000,
    .threadCreate 0xC1000100 0xC0102000 8 0xC1000200 0xC1008000,
    .threadExit 0xC1000200 1, .threadExit 0xC1000200 5]

theorem registry_run_agrees_sample :
    ∃ start final, initTask sampleImage 0xC1000000 (bootKernel sampleBoot) = some start ∧
      Permitted (registryStep sampleImage) CallerLive (initialRegistry 0xC1000000 start)
        sampleRegistryOps ∧
      runFrom (registryStep sampleImage) (initialRegistry 0xC1000000 start) sampleRegistryOps =
        some final ∧
      (final.live.map Thread.pid).Nodup := by
  have runs : ((initTask sampleImage 0xC1000000 (bootKernel sampleBoot)).map fun start =>
      decide (Permitted (registryStep sampleImage) CallerLive (initialRegistry 0xC1000000 start)
        sampleRegistryOps) &&
        (runFrom (registryStep sampleImage) (initialRegistry 0xC1000000 start)
          sampleRegistryOps).isSome) = some true := by
    decide +kernel
  obtain ⟨start, init, both⟩ := Option.map_eq_some_iff.mp runs
  rw [Bool.and_eq_true, decide_eq_true_eq] at both
  obtain ⟨final, run⟩ := Option.isSome_iff_exists.mp both.2
  exact ⟨start, final, init, both.1, run,
    (registry_run_agrees sampleImage sampleBoot init both.1 run).1⟩

end ChaoOS.TaskRegistry
