import ShimService.Dynamo.AttributeValue
import ShimService.Dynamo.BatchRounds

/-! Batches of deletes, which the service takes in rounds. -/
namespace ShimService.BatchWrite

open PyValue AttributeValue
open BatchGet (modifyAt modifyAt_nodup)

variable {φ γ : Type}

/-- A table's name and a key of it. -/
abbrev TableAndKey (φ : Type) := String × Dict φ

/-- `{'DeleteRequest': {'Key': key}}`, with the key as the service has it. -/
structure DeleteRequest (φ : Type) where
  key : Dict φ

/-- What the service is asked in one round, table by table. -/
abbrev RequestItems (φ : Type) := List (String × List (DeleteRequest φ))

/-- The items of a request one by one. -/
def entries (items : List (String × List γ)) : List (String × γ) :=
  items.flatMap fun table => table.2.map (table.1, ·)

/-- `table_requests[item[0]].append(...)`. -/
def addRequest [PyFloat φ] (tableRequests : RequestItems φ) (item : TableAndKey φ) :
    RequestItems φ :=
  modifyAt tableRequests item.1 [] (· ++ [⟨toDdbItem item.2⟩])

/-- What `submit` makes of a batch. -/
def tableRequests [PyFloat φ] (listOfKeys : List (TableAndKey φ)) : RequestItems φ :=
  listOfKeys.foldl addRequest []

/-- `__process_batch_write`, by the `UnprocessedItems` of each answer: the requests it sends, whose
number it returns, or `none` where the answers end before the items do. -/
def processBatchWrite : RequestItems φ → List (RequestItems φ) → Option (List (RequestItems φ))
  | [], _ => some []
  | _ :: _, [] => none
  | table :: tables, unprocessedItems :: answers =>
    (processBatchWrite unprocessedItems answers).map ((table :: tables) :: ·)

/-- One round of the service. -/
structure Round (φ : Type) where
  accepted : List (String × DeleteRequest φ)
  unprocessedItems : RequestItems φ

/-- Rounds in which the service accepts any part of what it is asked and hands back the rest, until
nothing is left. -/
inductive Accepted : RequestItems φ → List (Round φ) → Prop
  | done : Accepted [] []
  | round {items : RequestItems φ} {round : Round φ} {rounds : List (Round φ)} (hne : items ≠ [])
      (hpart : (round.accepted ++ entries round.unprocessedItems).Perm (entries items))
      (hrest : Accepted round.unprocessedItems rounds) : Accepted items (round :: rounds)

/-! ### What is accepted in the end -/

theorem entries_map_append {tables : List (String × List γ)} {name : String} {obj : γ}
    (hnodup : (tables.map Prod.fst).Nodup) (hname : name ∈ tables.map Prod.fst) :
    (entries (tables.map fun entry =>
      if entry.1 = name then (name, entry.2 ++ [obj]) else entry)).Perm
      (entries tables ++ [(name, obj)]) := by
  induction tables with
  | nil => simp at hname
  | cons table tables ih =>
    obtain ⟨hnot, hnodup⟩ := List.nodup_cons.mp hnodup
    rw [List.map_cons]
    by_cases heq : table.1 = name
    · subst heq
      have hothers : tables.map (fun entry =>
          if entry.1 = table.1 then (table.1, entry.2 ++ [obj]) else entry) = tables := by
        refine (List.map_congr_left fun entry hentry => if_neg fun heq => ?_).trans (List.map_id _)
        exact hnot (heq ▸ List.mem_map_of_mem hentry)
      rw [if_pos rfl, hothers]
      simp only [entries, List.flatMap_cons, List.map_append, List.append_assoc]
      exact List.perm_append_comm.append_left _
    · have hname : name ∈ tables.map Prod.fst :=
        (List.mem_cons.mp hname).resolve_left (Ne.symm heq)
      rw [if_neg heq]
      simp only [entries, List.flatMap_cons, List.append_assoc]
      exact (ih hnodup hname).append_left _

theorem entries_modifyAt {tables : List (String × List γ)} (hnodup : (tables.map Prod.fst).Nodup)
    (name : String) (obj : γ) :
    (entries (modifyAt tables name [] (· ++ [obj]))).Perm (entries tables ++ [(name, obj)]) := by
  unfold modifyAt
  split
  · rename_i hname
    exact entries_map_append hnodup hname
  · simp [entries]

variable [PyFloat φ] {items : RequestItems φ} {rounds : List (Round φ)}

/-- The item of a request that deletes a key. -/
def deleteOf (item : TableAndKey φ) : String × DeleteRequest φ := (item.1, ⟨toDdbItem item.2⟩)

theorem entries_addRequests (hnodup : (items.map Prod.fst).Nodup)
    (listOfKeys : List (TableAndKey φ)) :
    (entries (listOfKeys.foldl addRequest items)).Perm
      (entries items ++ listOfKeys.map deleteOf) := by
  induction listOfKeys generalizing items with
  | nil => simp
  | cons item listOfKeys ih =>
    have hitem : (entries (addRequest items item)).Perm (entries items ++ [deleteOf item]) :=
      entries_modifyAt hnodup _ _
    have hrest := ih (modifyAt_nodup hnodup item.1 [] (· ++ [⟨toDdbItem item.2⟩]))
    rw [List.foldl_cons, List.map_cons, List.append_cons]
    exact hrest.trans (hitem.append_right _)

/-- The first request asks for each key of the batch once. -/
theorem entries_tableRequests (listOfKeys : List (TableAndKey φ)) :
    (entries (tableRequests listOfKeys)).Perm (listOfKeys.map deleteOf) := by
  have hnodup : (([] : RequestItems φ).map Prod.fst).Nodup := List.nodup_nil
  exact entries_addRequests hnodup listOfKeys

omit [PyFloat φ] in
/-- All rounds together accept what the first one is asked. -/
theorem accepted_perm (h : Accepted items rounds) :
    (rounds.flatMap Round.accepted).Perm (entries items) := by
  induction h with
  | done => exact .refl _
  | round _ hpart _ ih =>
    rw [List.flatMap_cons]
    exact (ih.append_left _).trans hpart

omit [PyFloat φ] in
/-- The rounds are enough for the loop, and no request asks for more than the first one. -/
theorem processBatchWrite_eq (h : Accepted items rounds) :
    ∃ sent, processBatchWrite items (rounds.map Round.unprocessedItems) = some sent ∧
      ∀ request ∈ sent, (entries request).length ≤ (entries items).length := by
  induction h with
  | done => exact ⟨[], rfl, nofun⟩
  | @round items round rounds hne hpart _ ih =>
    obtain ⟨sent, hsent, hbound⟩ := ih
    obtain ⟨table, tables, rfl⟩ := List.exists_cons_of_ne_nil hne
    refine ⟨(table :: tables) :: sent, ?_, ?_⟩
    · rw [List.map_cons, processBatchWrite, hsent, Option.map_some]
    · intro request hrequest
      have hlength := hpart.length_eq
      rw [List.length_append] at hlength
      rcases List.mem_cons.mp hrequest with rfl | hlater
      · exact le_rfl
      · have hle := hbound request hlater
        omega

end ShimService.BatchWrite
