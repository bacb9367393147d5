import Mathlib.Data.List.Basic
import Mathlib.Data.List.Sort

/-!
`LiveAgentPollerSettings.add_message_data`, which stands between the polls of a session and the
dispatch of their messages, and keeps the `ack` the next poll sends.
-/
namespace ShimService.LiveAgent

structure Message where
  type : String
  messageText : String
  deriving DecidableEq, Repr

structure MessageData where
  messages : List Message
  sequence : ℤ
  offset : Option ℤ
  deriving DecidableEq, Repr

def MessageData.matchesAck (m : MessageData) (ack : ℤ) : Bool :=
  ack + m.messages.length = m.sequence

structure LiveAgentPollerSettings where
  ack : ℤ
  pc : ℕ
  messageList : List MessageData
  deriving DecidableEq, Repr

namespace LiveAgentPollerSettings

def new : LiveAgentPollerSettings := ⟨-1, 0, []⟩

/-- What is pickled, and read back by `deserialize`. -/
def serialize (s : LiveAgentPollerSettings) : LiveAgentPollerSettings :=
  { s with messageList := [] }

/-- The `while` loop: moves the first block that follows the ack out of the list, until none does.
The blocks moved out come first in the result. -/
def drain (s : LiveAgentPollerSettings) : List MessageData × LiveAgentPollerSettings :=
  match _h : s.messageList.find? fun m => m.matchesAck s.ack with
  | none => ([], s)
  | some m =>
    let rest := s.messageList.eraseP fun m => m.matchesAck s.ack
    let (results, t) := drain { s with messageList := rest, ack := m.sequence }
    (m :: results, t)
termination_by s.messageList.length
decreasing_by
  have hm := List.mem_of_find?_eq_some _h
  have hlen := List.length_eraseP_of_mem hm (List.find?_some _h)
  have hpos := List.length_pos_of_mem hm
  simp only [hlen]
  omega

def addMessageData (s : LiveAgentPollerSettings) (m : MessageData) :
    List MessageData × LiveAgentPollerSettings :=
  if m.matchesAck s.ack then
    let (results, t) := drain { s with ack := m.sequence }
    (m :: results, t)
  -- A block that does not follow the ack goes to the caller, and not into `message_list`.
  else ([m], s)

/-- Passes the blocks in turn and concatenates the lists returned. -/
def addAll : LiveAgentPollerSettings → List MessageData → List MessageData × LiveAgentPollerSettings
  | s, [] => ([], s)
  | s, m :: ms =>
    let (results, t) := s.addMessageData m
    let (rest, u) := addAll t ms
    (results ++ rest, u)

/-- The settings the pollers work with. -/
inductive Reachable : LiveAgentPollerSettings → Prop where
  | new : Reachable new
  | polled {s : LiveAgentPollerSettings} : Reachable s → Reachable { s with pc := s.pc + 1 }
  | serialize {s : LiveAgentPollerSettings} : Reachable s → Reachable s.serialize
  | addMessageData {s : LiveAgentPollerSettings} {m : MessageData} :
      Reachable s → Reachable (s.addMessageData m).2

variable {s : LiveAgentPollerSettings} {m : MessageData} {blocks order : List MessageData}

theorem drain_nil (h : s.messageList = []) : s.drain = ([], s) := by
  unfold drain
  split
  · rfl
  · rename_i hm
    simp [h] at hm

theorem addMessageData_nil (h : s.messageList = []) : s.addMessageData m =
    ([m], if m.matchesAck s.ack then { s with ack := m.sequence } else s) := by
  unfold addMessageData
  split
  · rw [drain_nil (s := { s with ack := m.sequence }) h]
  · rfl

/-- Nothing is ever put into the list. -/
theorem messageList_nil (h : Reachable s) : s.messageList = [] := by
  induction h with
  | new => rfl
  | polled _ ih => exact ih
  | serialize _ _ => rfl
  | addMessageData _ ih =>
    rw [addMessageData_nil ih]
    split
    · exact ih
    · exact ih

theorem addAll_results (h : Reachable s) : (s.addAll order).1 = order := by
  induction order generalizing s with
  | nil => rfl
  | cons m ms ih =>
    have hms : ((s.addMessageData m).2.addAll ms).1 = ms := ih h.addMessageData
    have hm : (s.addMessageData m).1 = [m] := by rw [addMessageData_nil (messageList_nil h)]
    simp [addAll, hm, hms]

/-- Blocks that follow one another from `ack` on, each with a message at least. -/
def Contiguous : ℤ → List MessageData → Prop
  | _, [] => True
  | ack, m :: ms =>
    m.messages ≠ [] ∧ m.sequence = ack + m.messages.length ∧ Contiguous m.sequence ms

/-- The `ack` once the last block is delivered. -/
def lastSequence (ack : ℤ) (blocks : List MessageData) : ℤ :=
  (blocks.getLast?.map MessageData.sequence).getD ack

theorem lastSequence_cons {ack : ℤ} : lastSequence ack (m :: blocks) =
    lastSequence m.sequence blocks := by
  simp [lastSequence, List.getLast?_cons]

theorem contiguous_sequence {ack : ℤ} (h : Contiguous ack blocks) (hm : m ∈ blocks) :
    ack < m.sequence := by
  induction blocks generalizing ack with
  | nil => cases hm
  | cons b bs ih =>
    obtain ⟨hne, hseq, hrest⟩ := h
    have hpos : 0 < b.messages.length := List.length_pos_iff.mpr hne
    rcases List.mem_cons.mp hm with rfl | hm
    · omega
    · have := ih hrest hm
      omega

theorem contiguous_pairwise {ack : ℤ} (h : Contiguous ack blocks) :
    blocks.Pairwise fun a b => a.sequence < b.sequence := by
  induction blocks generalizing ack with
  | nil => exact List.Pairwise.nil
  | cons b bs ih =>
    exact List.pairwise_cons.mpr ⟨fun c hc => contiguous_sequence h.2.2 hc, ih h.2.2⟩

theorem addAll_ack (h : Reachable s) (hb : Contiguous s.ack blocks) :
    (s.addAll blocks).2.ack = lastSequence s.ack blocks := by
  induction blocks generalizing s with
  | nil => rfl
  | cons b bs ih =>
    obtain ⟨_, hseq, hrest⟩ := hb
    have hack : (s.addMessageData b).2.ack = b.sequence := by
      rw [addMessageData_nil (messageList_nil h), if_pos (by simp [MessageData.matchesAck, hseq])]
    have htail := ih (h.addMessageData (m := b)) (hack ▸ hrest)
    rw [lastSequence_cons, ← hack, ← htail]
    rfl

/-- What the reordering is to do with blocks passed in any order. -/
def Delivers (s : LiveAgentPollerSettings) (blocks order : List MessageData) : Prop :=
  (s.addAll order).1.Perm blocks ∧
    (s.addAll order).1.Pairwise (fun a b => a.sequence < b.sequence) ∧
      (s.addAll order).2.ack = lastSequence s.ack blocks

/-- The blocks come out as they are passed, so they are delivered exactly when they are passed
in order. -/
theorem delivers_iff_passed_in_order (hs : Reachable s) (hb : Contiguous s.ack blocks)
    (hp : order.Perm blocks) :
    s.Delivers blocks order ↔ order.Pairwise fun a b => a.sequence < b.sequence := by
  constructor
  · intro h
    have hout := h.2.1
    rwa [addAll_results hs] at hout
  · intro hsorted
    have heq : order = blocks := by
      apply hp.eq_of_pairwise _ hsorted (contiguous_pairwise hb)
      intro a b _ _ hab hba
      omega
    subst heq
    refine ⟨?_, ?_, addAll_ack hs hb⟩
    · rw [addAll_results hs]
    · rw [addAll_results hs]
      exact hsorted

def firstBlock : MessageData := ⟨[⟨"AgentChatMessage", "one"⟩], 0, none⟩

def secondBlock : MessageData := ⟨[⟨"AgentChatMessage", "two"⟩], 1, none⟩

theorem first_then_second_delivered : new.Delivers [firstBlock, secondBlock]
    [firstBlock, secondBlock] :=
  (delivers_iff_passed_in_order .new (by simp [Contiguous, firstBlock, secondBlock, new])
    (List.Perm.refl _)).mpr (by simp [firstBlock, secondBlock])

/-- The second block arrives first: it is dispatched at once, and the ack stays behind it. -/
theorem second_first_not_delivered : ¬ ∀ (s : LiveAgentPollerSettings)
    (blocks order : List MessageData), Reachable s → Contiguous s.ack blocks →
      order.Perm blocks → s.Delivers blocks order := by
  intro h
  have hd := h new [firstBlock, secondBlock] [secondBlock, firstBlock] .new
    (by simp [Contiguous, firstBlock, secondBlock, new]) (List.Perm.swap _ _ _)
  have hout := hd.2.1
  rw [addAll_results .new] at hout
  simp [firstBlock, secondBlock] at hout

end LiveAgentPollerSettings

end ShimService.LiveAgent
