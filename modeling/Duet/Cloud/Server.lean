import Duet.Cloud.Callables
import Duet.Cloud.Rules
import Duet.Lib.Transition

/-!
# The server

Clients write what the rules permit, and the callables run, interleaved one operation at a time.

## Main definitions

* `Server` — the documents, the calls that are running, and the replies sent so far.
* `Server.step` — one event: a client's write, a new call, or the next operation of a call.

`Server.write_step` and `Server.advance_step` say once what an event does.
-/

namespace Duet

open Lib

/-- A call of one of the functions. -/
inductive Request where
  | sendInvite (auth : Option Token) (data : Fields) (messageId : String) (now : Int)
  | acceptInvite (auth : Option Token) (data : Fields)
  | leavePiece (auth : Option Token) (data : Fields)
  | deleteAccount (auth : Option Token) (recent : Bool) (schedule : Schedule)

/-- The function that a request calls. -/
def Request.program (emailKey : String → String) : Request → AdminProgram Reply
  | sendInvite auth data messageId now => Duet.sendInvite emailKey auth data messageId now
  | acceptInvite auth data => Duet.acceptInvite auth data
  | leavePiece auth data => Duet.leavePiece auth data
  | deleteAccount auth recent schedule => Duet.deleteAccount auth recent schedule

/-- A running call: its request and what is left of its program. -/
structure RunningCall where
  request : Request
  program : AdminProgram Reply

structure Server where
  cloud : Cloud
  running : List RunningCall
  replies : List (Request × Reply)

/-- A client's write, a new call, or the next operation of the `i`-th call. A batch on several
documents leads to the same state as its writes one after another, those on pieces last. -/
inductive ServerEvent where
  | write (uid : String) (write : Write)
  | call (request : Request)
  | advance (i : Nat)

namespace Server

variable (emailKey : String → String)

/-- The reply of a program that has ended. -/
def replyOf (request : Request) : AdminProgram Reply → List (Request × Reply)
  | .done reply => [(request, reply)]
  | _ => []

/-- The next operation of the `i`-th call. -/
def advance (s : Server) (i : Nat) (call : RunningCall) : Server :=
  let next := call.program.advance Operation.perform s.cloud
  ⟨next.2, s.running.set i ⟨call.request, next.1⟩, s.replies ++ replyOf call.request next.1⟩

def step (s : Server) : ServerEvent → Option Server
  | .write uid write =>
    if s.cloud.permitsWrite (some uid) write then
      match s.cloud.commit [write] with
      | .ok cloud => some { s with cloud := cloud }
      | .error _ => none
    else none
  | .call request =>
    some { s with running := s.running ++ [⟨request, request.program emailKey⟩] }
  | .advance i =>
    match s.running[i]? with
    | none => none
    | some call => if call.program.next?.isSome then some (s.advance i call) else none

/-- Nothing stored, nothing running. -/
def initial : Server := ⟨.empty, [], []⟩

/-- The states that some run of the server reaches. -/
def Reachable (s : Server) : Prop := ∃ events, run (step emailKey) initial events = some s

variable {emailKey} {s t : Server}

theorem write_step {uid : String} {write : Write} :
    step emailKey s (.write uid write) = some t ↔ s.cloud.permitsWrite (some uid) write ∧
      ∃ fields, write.result (s.cloud.doc write.path) = .ok fields ∧
        t = { s with cloud := s.cloud.store write.path fields } := by
  simp only [step]
  split_ifs with h
  · rcases hc : s.cloud.commit [write] with e | cloud
    · have hnone : ∀ fields, write.result (s.cloud.doc write.path) ≠ .ok fields := by
        intro fields hfields
        have := Cloud.commit_singleton.mpr ⟨fields, hfields, rfl⟩
        simp [hc] at this
      simp [hnone]
    · obtain ⟨fields, hfields, rfl⟩ := Cloud.commit_singleton.mp hc
      simp [h, hfields, eq_comm]
  · simp [h]

theorem write_step_isSome {uid : String} {write : Write}
    (h : s.cloud.permitsWrite (some uid) write) :
    ∃ fields, write.result (s.cloud.doc write.path) = .ok fields ∧
      step emailKey s (.write uid write) =
        some { s with cloud := s.cloud.store write.path fields } := by
  cases hr : write.result (s.cloud.doc write.path) with
  | error failure => simp [Cloud.permitsWrite, hr] at h
  | ok fields => exact ⟨fields, rfl, write_step.mpr ⟨h, fields, hr, rfl⟩⟩

theorem advance_step {i : Nat} :
    step emailKey s (.advance i) = some t ↔
      ∃ call op k, s.running[i]? = some call ∧ call.program = .call op k ∧
        t = s.advance i call := by
  rcases hi : s.running[i]? with _ | call
  · simp [step, hi]
  · rcases hp : call.program with reply | failure | ⟨op, k⟩ <;>
      simp [step, hi, hp, Program.next?, eq_comm]

/-- The running calls issue what their programs issue, as long as what they can see stays what
they count on. -/
theorem running_step {can : (op : Operation) → op.Response → Prop} {ok : Operation → Prop}
    {event : ServerEvent} (hprogram : ∀ request, (Request.program emailKey request).Issues can ok)
    (hsees : ∀ op r, (Operation.perform op s.cloud).1 = .ok r → can op r)
    (h : ∀ call ∈ s.running, call.program.Issues can ok)
    (hstep : step emailKey s event = some t) : ∀ call ∈ t.running, call.program.Issues can ok := by
  cases event with
  | write uid write =>
    obtain ⟨-, fields, -, rfl⟩ := write_step.mp hstep
    exact h
  | call request =>
    obtain rfl := Option.some.inj hstep
    intro call hcall
    obtain hcall | hcall := List.mem_append.mp hcall
    · exact h call hcall
    · obtain rfl := List.mem_singleton.mp hcall
      exact hprogram request
  | advance i =>
    obtain ⟨call, op, k, hi, -, rfl⟩ := advance_step.mp hstep
    intro other hother
    obtain hother | rfl := List.mem_or_eq_of_mem_set hother
    · exact h other hother
    · exact (h call (List.mem_of_getElem? hi)).advance Operation.perform s.cloud
        fun op r _ hr => hsees op r hr

theorem advance_cloud {i : Nat} {call : RunningCall} {op : Operation}
    {k : op.Response → AdminProgram Reply} (h : call.program = .call op k) :
    (s.advance i call).cloud = (Operation.perform op s.cloud).2 := by
  simp only [advance, h, Program.advance_call_snd]

end Server

end Duet
