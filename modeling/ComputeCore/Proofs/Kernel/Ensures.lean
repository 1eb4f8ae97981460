import ComputeCore.Proofs.Memory.Heap
import ComputeCore.Scheduling.Shared
/-!
# Processes beside other threads

`Process.Ensures` is what can be said of a process that reads and writes memory while other threads
may change every byte but those that are `kept`: it never faults, never waits, and ends with a value
and a heap as promised. It is proved of a process part by part (`Ensures.bind`), and used request by
request (`Ensures.perform`).
-/

namespace ComputeCore

namespace Process

variable {α β : Type} {kept : Address → Prop} {heap : Heap}

/-- Before each of its requests, and before its end, the process meets a heap in which other threads
have changed what is not `kept`. It only reads and writes, and `post` holds in the end. -/
def Ensures (kept : Address → Prop) (post : α → Heap → Prop) : Process α → Heap → Prop
  | .done value, heap => ∀ heap', heap.Agrees kept heap' → post value heap'
  | .ask (.read start size) next, heap =>
    ∀ heap', heap.Agrees kept heap' → (next (heap'.read start size)).Ensures kept post heap'
  | .ask (.write start bytes) next, heap =>
    ∀ heap', heap.Agrees kept heap' → (next ()).Ensures kept post (heap'.write start bytes)
  | _, _ => False

/-- What a process ensures it ensures after a change by other threads. -/
theorem Ensures.agrees {post : α → Heap → Prop} {process : Process α}
    (h : process.Ensures kept post heap) {heap' : Heap} (hagrees : heap.Agrees kept heap') :
    process.Ensures kept post heap' := by
  cases process with
  | done value => exact fun heap'' hagrees' => h heap'' (hagrees.trans hagrees')
  | fault fault => exact h
  | ask request next =>
    cases request with
    | read start size => exact fun heap'' hagrees' => h heap'' (hagrees.trans hagrees')
    | write start bytes => exact fun heap'' hagrees' => h heap'' (hagrees.trans hagrees')
    | _ => exact h

theorem Ensures.imp {post post' : α → Heap → Prop} {process : Process α}
    (h : process.Ensures kept post heap) (himp : ∀ value heap, post value heap → post' value heap) :
    process.Ensures kept post' heap := by
  induction process generalizing heap with
  | done value => exact fun heap' hagrees => himp value heap' (h heap' hagrees)
  | fault fault => exact h
  | ask request next ih =>
    cases request with
    | read start size => exact fun heap' hagrees => ih _ (h heap' hagrees)
    | write start bytes => exact fun heap' hagrees => ih _ (h heap' hagrees)
    | _ => exact h

/-- One process after another. By induction on the first. -/
theorem Ensures.bind {post : α → Heap → Prop} {post' : β → Heap → Prop} {next : α → Process β}
    {process : Process α} (h : process.Ensures kept post heap)
    (hnext : ∀ value heap, post value heap → (next value).Ensures kept post' heap) :
    (process.bind next).Ensures kept post' heap := by
  induction process generalizing heap with
  | done value => exact hnext value heap (h heap (.refl kept heap))
  | fault fault => exact h
  | ask request reply ih =>
    cases request with
    | read start size => exact fun heap' hagrees => ih _ (h heap' hagrees)
    | write start bytes => exact fun heap' hagrees => ih _ (h heap' hagrees)
    | _ => exact h

/-- A request of such a process is answered at once, and the process goes on as promised. -/
theorem Ensures.perform {post : α → Heap → Prop} {request : Request}
    {next : request.Reply → Process α} {shared : Shared} (command : CommandId)
    (h : (Process.ask request next).Ensures kept post shared.memory.heap) :
    ∃ reply shared', shared.perform command request = some (.ok (reply, shared')) ∧
      (next reply).Ensures kept post shared'.memory.heap := by
  cases request with
  | read start size => exact ⟨_, _, rfl, h _ (.refl kept _)⟩
  | write start bytes => exact ⟨_, _, rfl, h _ (.refl kept _)⟩
  | _ => exact h.elim

end Process

end ComputeCore
