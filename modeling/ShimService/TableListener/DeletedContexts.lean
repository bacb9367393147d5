import Mathlib.Data.List.Permutation
import Mathlib.Data.List.TakeDrop
import ShimService.Keys.Agreement
import ShimService.TableListener.Processor
import ShimService.Threading.JoinReturns

/-! The clean-up deletes the contexts of the removed sessions, each once, and nothing else. -/
namespace ShimService.TableListener

open PyValue AttributeValue Keys Threading Transition BatchWrite
open Collections (flatIterator Yields yields_iff flatIterator_left)

variable {φ : Type} {d : Char} {name rest : List Char} {arn : StreamArn}
  {record : StreamRecord φ}

/-! ### The records of removed sessions -/

theorem literal_append (text : String) (rest : List Char) :
    literal text (text.toList ++ rest) = some rest := by
  have hdrop : (text.toList ++ rest).drop text.length = rest := by
    rw [← String.length_toList, List.drop_left]
  simp [literal, hdrop]

theorem field_append (hne : name ≠ []) (hfree : d ∉ name) :
    field d (name ++ d :: rest) = some (name, rest) := by
  have hspan : (name ++ d :: rest).span (· ≠ d) = (name, d :: rest) := by
    have hname : ∀ c ∈ name, decide (c ≠ d) = true := fun c hc =>
      decide_eq_true (ne_of_mem_of_not_mem hc hfree)
    rw [List.span_eq_takeWhile_dropWhile, List.takeWhile_append_of_pos hname,
      List.dropWhile_append_of_pos hname]
    simp
  obtain ⟨c, name, rfl⟩ := List.exists_cons_of_ne_nil hne
  rw [field, hspan]

theorem StreamArn.toList_text (arn : StreamArn) : arn.text.toList =
    arnStart.toList ++ (arn.region.toList ++ ':' :: (arn.account.toList ++
      ':' :: (tableSlash.toList ++ (arn.table.toList ++ '/' ::
        (streamSlash.toList ++ arn.label.toList))))) := by
  have hcolon : ":".toList = [':'] := rfl
  have hslash : "/".toList = ['/'] := rfl
  simp only [text, String.toList_append, hcolon, hslash, List.append_assoc, List.cons_append,
    List.nil_append]

theorem toList_ne_nil {s : String} (h : s ≠ "") : s.toList ≠ [] := fun hnil =>
  h (String.toList_eq_nil_iff.mp hnil)

/-- The pattern matches at the front, so that the search ends there. -/
theorem extractTableName_text (arn : StreamArn) : extractTableName arn.text = some arn.table := by
  have hmatch : matchArn arn.text.toList = some arn.table := by
    rw [arn.toList_text, matchArn, literal_append]
    simp only [Option.bind_eq_bind, Option.bind_some,
      field_append (toList_ne_nil arn.region_ne) arn.region_free,
      field_append (toList_ne_nil arn.account_ne) arn.account_free, literal_append,
      field_append (toList_ne_nil arn.table_ne) arn.table_free, String.ofList_toList]
    rfl
  rw [extractTableName]
  cases hcs : arn.text.toList <;> simp [← hcs, hmatch]

/-- A session of the session table that is removed. -/
@[ext] structure RemovedSession where
  tenantId : ℤ
  sessionId : String
  deriving DecidableEq, Repr

def RemovedSession.keys (session : RemovedSession) : Dict φ :=
  [("tenantId", .dict [("N", .str (toString session.tenantId))]),
    ("sessionId", .dict [("S", .str session.sessionId)])]

/-- The removals that the records tell of, with the keys of each in some order. -/
def Removals (records : List (StreamRecord φ)) (sessions : List RemovedSession) : Prop :=
  List.Forall₂ (fun record session => record.keys.Perm session.keys)
    (records.filter fun record =>
      record.eventSourceArn.table = "ShimServiceSession" ∧ record.eventName = "REMOVE") sessions

theorem localFilter_iff : localFilter record = true ↔
    record.eventSourceArn.table = "ShimServiceSession" ∧ record.eventName = "REMOVE" := by
  simp [localFilter, extractTableName_text]

/-! ### The key of a context -/

/-- A row of the context repository. -/
def IsContext (session : RemovedSession) (ct : ContextType) (item : Item (PyValue.Value φ)) :
    Prop :=
  item "tenantId" = some (.int session.tenantId) ∧
    item "sessionId" = some (.str session.sessionId) ∧ item "contextType" = some (.str ct.value)

def hashKeyText (session : RemovedSession) : String :=
  Text.join '\t' ["d", toString session.tenantId]

def rangeKeyText (session : RemovedSession) (ct : ContextType) : String :=
  Text.join '\t' [session.sessionId, ct.value]

/-- The key of a context as the service has it. -/
def contextKey (session : RemovedSession) (ct : ContextType) : Dict φ :=
  [("hashKey", .dict [("S", .str (hashKeyText session))]),
    ("rangeKey", .dict [("S", .str (rangeKeyText session ct))])]

def contextDelete (session : RemovedSession) (ct : ContextType) : String × DeleteRequest φ :=
  ("ShimServiceVirtualRangeTable", ⟨contextKey session ct⟩)

/-- Every context of the sessions is deleted once, and nothing else. -/
def DeletedOnce (sessions : List RemovedSession) (accepted : List (String × DeleteRequest φ)) :
    Prop :=
  accepted.Nodup ∧ ∀ request, request ∈ accepted ↔
    ∃ session ∈ sessions, ∃ ct, request = contextDelete session ct

theorem value_injective : Function.Injective ContextType.value := by
  intro ct ct'
  cases ct <;> cases ct' <;> decide

theorem toString_int_injective : Function.Injective (toString : ℤ → String) := by
  intro n m heq
  have hparsed := Text.parseInt_toString n
  rw [heq, Text.parseInt_toString] at hparsed
  exact (Option.some.inj hparsed).symm

theorem length_value (ct : ContextType) : ct.value.toList.length = 1 := by
  cases ct <;> rfl

/-- A session's id may hold the delimiter, a context type is one character. -/
theorem contextDelete_inj {session session' : RemovedSession} {ct ct' : ContextType}
    (h : (contextDelete session ct : String × DeleteRequest φ) = contextDelete session' ct') :
    session = session' ∧ ct = ct' := by
  simp only [contextDelete, contextKey, Prod.mk.injEq, DeleteRequest.mk.injEq, List.cons.injEq,
    PyValue.Value.dict.injEq, PyValue.Value.str.injEq, true_and, and_true] at h
  obtain ⟨hhash, hrange⟩ := h
  have hhash := congrArg String.toList hhash
  have hrange := congrArg String.toList hrange
  simp only [hashKeyText, rangeKeyText, Text.toList_join_cons, Text.join_singleton] at hhash hrange
  obtain ⟨hsession, hct⟩ := List.append_inj' hrange (by simp [length_value])
  obtain ⟨_, htenant⟩ := List.append_inj hhash rfl
  have htenant := toString_int_injective (String.toList_injective (List.cons.inj htenant).2)
  have hct := value_injective (String.toList_injective (List.cons.inj hct).2)
  exact ⟨RemovedSession.ext htenant (String.toList_injective hsession), hct⟩

section Keys

variable [ToString (PyValue.Value φ)] {session : RemovedSession} {ct : ContextType}
  {item : Item (PyValue.Value φ)}

def contextValues (session : RemovedSession) (ct : ContextType) :
    List (List (Keys.Value (PyValue.Value φ))) :=
  [[.int session.tenantId], [.str session.sessionId, .str ct.value]]

def contextItem (session : RemovedSession) (ct : ContextType) : TableAndKey φ :=
  (tableName, [("hashKey", .str (hashKeyText session)),
    ("rangeKey", .str (rangeKeyText session ct))])

theorem ready_of_isContext (h : IsContext session ct item) :
    List.Forall₂ (Key.Ready item) awsSessionContextsRepo.keys (contextValues session ct) := by
  obtain ⟨htenant, hsession, hct⟩ := h
  refine .cons ?_ (.cons ?_ .nil)
  · exact .cons ⟨_, htenant, rfl⟩ .nil
  · exact .cons ⟨_, hsession, rfl⟩ (.cons ⟨_, hct, rfl⟩ .nil)

theorem keyAsDict_keyDict : keyAsDict (CompoundKey.keyDict awsSessionContextsRepo.keys
    (contextValues session ct) fun _ => none) = (contextItem session ct : TableAndKey φ).2 := by
  rfl

theorem keyAsDict_stored : keyAsDict (CompoundKey.stored awsSessionContextsRepo.keys
    (contextValues session ct) item) = (contextItem session ct : TableAndKey φ).2 := by
  rfl

/-- The key built for a deletion. -/
theorem buildKey_of_isContext (h : IsContext session ct item) :
    (awsSessionContextsRepo.buildKeyAsDict item false).map (fun built =>
      (tableName, keyAsDict built)) = some (contextItem session ct : TableAndKey φ) := by
  have hbuilt : awsSessionContextsRepo.buildKeyAsDict item false =
      some (CompoundKey.keyDict awsSessionContextsRepo.keys (contextValues session ct)
        fun _ => none) :=
    CompoundKey.populateKey_keys (ready_of_isContext h)
      awsSessionContextsRepo.allAttributes_nodup
  rw [hbuilt, Option.map_some, keyAsDict_keyDict]
  rfl

theorem contextEntry_eq {key : Dict φ}
    (htenant : key.lookup "tenantId" = some (.int session.tenantId))
    (hsession : key.lookup "sessionId" = some (.str session.sessionId)) :
    contextEntry key ct = some (contextItem session ct) := by
  have hlookup : ∀ name, (setItem key "contextType" (.str ct.value)).lookup name =
      if name = "contextType" then some (.str ct.value) else key.lookup name := fun name =>
    BatchGet.lookup_modifyAt key "contextType" name (.str ct.value) fun _ => .str ct.value
  refine buildKey_of_isContext ⟨?_, ?_, ?_⟩
  · simp [itemOf, hlookup, htenant, keyValue]
  · simp [itemOf, hlookup, hsession, keyValue]
  · simp [itemOf, hlookup, keyValue]

variable [PyFloat φ]

/-- The key under which a context is stored. -/
theorem stored_of_isContext (h : IsContext session ct item) :
    ∃ stored, awsSessionContextsRepo.prepForSerialization item = some stored ∧
      toDdbItem (keyAsDict stored) = contextKey session ct :=
  ⟨_, CompoundKey.prepForSerialization_keys (ready_of_isContext h)
    awsSessionContextsRepo.allAttributes_nodup, congrArg toDdbItem keyAsDict_stored⟩

omit [ToString (PyValue.Value φ)] in
/-- The keys of a record are read in either order. -/
theorem fromDdbItem_keys {row : Dict φ} (h : row.Perm session.keys) :
    ∃ key : Dict φ, fromDdbItem row = some key ∧
      key.lookup "tenantId" = some (.int session.tenantId) ∧
      key.lookup "sessionId" = some (.str session.sessionId) := by
  have htenant : convertValue (.dict [("N", .str (toString session.tenantId))]) =
      some (.int session.tenantId : PyValue.Value φ) := convertNumber_toString session.tenantId
  have hsession : convertValue (.dict [("S", .str session.sessionId)]) =
      some (.str session.sessionId : PyValue.Value φ) := rfl
  rcases List.perm_pair.mp h with rfl | rfl
  · refine ⟨[("tenantId", .int session.tenantId), ("sessionId", .str session.sessionId)], ?_,
      rfl, rfl⟩
    simp only [fromDdbItem, buildMap, htenant, hsession, Option.bind_eq_bind, Option.bind_some]
    rfl
  · refine ⟨[("sessionId", .str session.sessionId), ("tenantId", .int session.tenantId)], ?_,
      rfl, rfl⟩
    simp only [fromDdbItem, buildMap, htenant, hsession, Option.bind_eq_bind, Option.bind_some]
    rfl

theorem transform_eq {row : Dict φ} (h : row.Perm session.keys) :
    transform row = some (contextTypes.map (contextItem session)) := by
  obtain ⟨key, hkey, htenant, hsession⟩ := fromDdbItem_keys h
  rw [transform, hkey]
  simp [contextTypes, contextEntry_eq htenant hsession]

theorem mapM_transform {rows : List (Dict φ)} {sessions : List RemovedSession}
    (h : List.Forall₂ (fun row session => row.Perm session.keys) rows sessions) :
    rows.mapM transform =
      some (sessions.map fun session => contextTypes.map (contextItem session)) := by
  induction h with
  | nil => rfl
  | cons hrow _ ih => simp [List.mapM_cons, transform_eq hrow, ih]

end Keys

/-! ### The whole clean-up -/

variable {records : List (StreamRecord φ)} {sessions : List RemovedSession}

/-- The keys of all contexts in the order in which they are made. -/
def contextItems (sessions : List RemovedSession) : List (TableAndKey φ) :=
  (sessions.map fun session => contextTypes.map (contextItem session)).flatten

theorem mem_contextTypes (ct : ContextType) : ct ∈ contextTypes := by
  cases ct <;> decide

theorem contextTypes_nodup : contextTypes.Nodup := by decide

theorem rows_of_removals (h : Removals records sessions) :
    List.Forall₂ (fun row session => row.Perm session.keys) (recordsToDelete records) sessions := by
  have hfilter : records.filter localFilter = records.filter fun record =>
      record.eventSourceArn.table = "ShimServiceSession" ∧ record.eventName = "REMOVE" :=
    List.filter_congr fun record _ => by
      rw [Bool.eq_iff_iff, localFilter_iff, decide_eq_true_iff]
  rw [recordsToDelete, hfilter, List.forall₂_map_left_iff]
  exact h

theorem objects_map_add {α : Type} (objs : List α) :
    objects (objs.map Threading.Add.add) = objs := by
  simp [objects, List.flatMap_map, Threading.Add.objects]

variable [PyFloat φ]

theorem deletedOnce_contextItems (hnodup : sessions.Nodup)
    {accepted : List (String × DeleteRequest φ)}
    (h : accepted.Perm ((contextItems sessions).map deleteOf)) : DeletedOnce sessions accepted := by
  have hdeletes : ((contextItems sessions).map deleteOf : List (String × DeleteRequest φ)) =
      sessions.flatMap fun session => contextTypes.map (contextDelete session) := by
    simp only [contextItems, List.map_flatten, List.map_map, List.flatMap_def]
    rfl
  rw [hdeletes] at h
  constructor
  · refine h.nodup_iff.mpr (List.nodup_flatMap.mpr ⟨fun session _ => ?_, ?_⟩)
    · exact contextTypes_nodup.map fun ct ct' heq => (contextDelete_inj heq).2
    · refine hnodup.imp fun {session session'} hne => ?_
      rintro request hrequest hrequest'
      obtain ⟨ct, _, rfl⟩ := List.mem_map.mp hrequest
      obtain ⟨ct', _, heq⟩ := List.mem_map.mp hrequest'
      exact hne (contextDelete_inj heq).1.symm
  · intro request
    rw [h.mem_iff, List.mem_flatMap]
    constructor
    · rintro ⟨session, hsession, hrequest⟩
      obtain ⟨ct, _, rfl⟩ := List.mem_map.mp hrequest
      exact ⟨session, hsession, ct, rfl⟩
    · rintro ⟨session, hsession, ct, rfl⟩
      exact ⟨session, hsession, List.mem_map_of_mem (mem_contextTypes ct)⟩

/-- What the service accepts of all batches together. -/
theorem accepted_of_batches {batches : List (List (TableAndKey φ))}
    {rounds : List (List (Round φ))}
    (h : List.Forall₂ (fun batch rounds => Accepted (tableRequests batch) rounds) batches rounds) :
    (rounds.flatMap fun rounds => rounds.flatMap Round.accepted).Perm
      (batches.flatten.map deleteOf) := by
  induction h with
  | nil => exact .refl _
  | cons hbatch _ ih =>
    rw [List.flatMap_cons, List.flatten_cons, List.map_append]
    exact ((accepted_perm hbatch).trans (entries_tableRequests _)).append ih

variable [ToString (PyValue.Value φ)]

theorem yields_contexts (h : Removals records sessions) {tableAndKeys : List (TableAndKey φ)} :
    Yields transform (flatIterator (recordsToDelete records)) tableAndKeys ↔
      tableAndKeys = contextItems sessions :=
  yields_iff (flatIterator_left (mapM_transform (rows_of_removals h)))

/-- The batches of a call are the keys of the contexts, at most 25 in each. -/
theorem batches_of_invoked (h : Removals records sessions)
    {batches : List (List (TableAndKey φ))} (hinvoked : Invoked records batches) :
    batches.flatten.Perm (contextItems sessions) ∧ ∀ batch ∈ batches, batch.length ≤ 25 := by
  cases hinvoked with
  | nothing hnone =>
    have hrows := rows_of_removals h
    rw [hnone, List.forall₂_nil_left_iff] at hrows
    subst hrows
    exact ⟨.refl _, nofun⟩
  | deleted hsome hyields hrun hreturned =>
    obtain ⟨sent, hperm, hflatten, hsized⟩ := each_object_processed_once hrun hreturned
    rw [objects_map_add, (yields_contexts h).mp hyields] at hflatten
    exact ⟨hflatten ▸ hperm.flatten, fun batch hbatch => (hsized batch hbatch).2⟩

/-- Whatever part of a batch the service accepts in each round, the clean-up comes to its end, and
it has then deleted the contexts of the removed sessions, each once, and nothing else, by requests
of at most 25 items; and the key that it deletes is the one under which the context is stored. -/
theorem removed_contexts_deleted_once (hremoved : Removals records sessions)
    (hnodup : sessions.Nodup) :
    (∃ tableAndKeys bound, Yields transform (flatIterator (recordsToDelete records)) tableAndKeys ∧
      ∀ xs s, Run deleteGroup.step Free (initial (tableAndKeys.map .add)) xs s →
        xs.length ≤ bound ∧ (s.producer = .returned ∨ ∃ a t, deleteGroup.step s a = some t)) ∧
    (∀ batches, Invoked records batches → ∀ rounds,
      List.Forall₂ (fun batch rounds => Accepted (tableRequests batch) rounds) batches rounds →
      DeletedOnce sessions (rounds.flatMap fun rounds => rounds.flatMap Round.accepted) ∧
      ∀ batch ∈ batches, ∀ rounds, Accepted (tableRequests batch) rounds → ∃ sent,
        processBatchWrite (tableRequests batch) (rounds.map Round.unprocessedItems) = some sent ∧
        ∀ request ∈ sent, (entries request).length ≤ 25) ∧
    ∀ session ct (item : Item (PyValue.Value φ)), IsContext session ct item → ∃ stored,
      awsSessionContextsRepo.prepForSerialization item = some stored ∧
      contextDelete session ct = (tableName, ⟨toDdbItem (keyAsDict stored)⟩) := by
  refine ⟨?_, fun batches hinvoked rounds hrounds => ⟨?_, ?_⟩, ?_⟩
  · let start : State (TableAndKey φ) := initial ((contextItems sessions).map .add)
    refine ⟨contextItems sessions, start.weight, (yields_contexts hremoved).mpr rfl, ?_⟩
    exact fun xs s hrun => join_returns hrun
  · obtain ⟨hbatches, _⟩ := batches_of_invoked hremoved hinvoked
    have haccepted := accepted_of_batches hrounds
    exact deletedOnce_contextItems hnodup (haccepted.trans (hbatches.map deleteOf))
  · intro batch hbatch rounds haccepted
    obtain ⟨sent, hsent, hbound⟩ := processBatchWrite_eq haccepted
    refine ⟨sent, hsent, fun request hrequest => ?_⟩
    have hbatch := (batches_of_invoked hremoved hinvoked).2 batch hbatch
    have hitems := (entries_tableRequests batch).length_eq
    rw [List.length_map] at hitems
    exact (hbound request hrequest).trans (hitems ▸ hbatch)
  · intro session ct item hitem
    obtain ⟨stored, hstored, hkey⟩ := stored_of_isContext hitem
    exact ⟨stored, hstored, by rw [hkey]; rfl⟩

instance : ToString (PyValue.Value Empty) := ⟨fun _ => ""⟩

def streamOf (table : String) (hne : table ≠ "") (hfree : '/' ∉ table.toList) : StreamArn where
  region := "us-west-1"
  account := "433933949595"
  table := table
  label := "2023-11-16T22:14:15.335"
  region_ne := by decide
  region_free := by decide
  account_ne := by decide
  account_free := by decide
  table_ne := hne
  table_free := hfree

/-- A record of the session table. -/
def sessionRecord (eventName : String) (session : RemovedSession) : StreamRecord Empty :=
  ⟨streamOf "ShimServiceSession" (by decide) (by decide), eventName, session.keys⟩

def nineSessions : List RemovedSession :=
  (List.range 9).map fun n => ⟨10001, "session-" ++ toString n⟩

/-- Nine sessions are removed and another one added, and a row of another table is removed. -/
def mixedRecords : List (StreamRecord Empty) :=
  nineSessions.map (sessionRecord "REMOVE") ++ [sessionRecord "INSERT" ⟨10001, "session-9"⟩,
    ⟨streamOf "ShimServiceEvent" (by decide) (by decide), "REMOVE", []⟩]

theorem removals_mixed : Removals mixedRecords nineSessions := by
  have hfilter : mixedRecords.filter (fun record =>
      record.eventSourceArn.table = "ShimServiceSession" ∧ record.eventName = "REMOVE") =
      nineSessions.map (sessionRecord "REMOVE") := by
    rw [mixedRecords, List.filter_append, List.filter_map]
    simp [sessionRecord, streamOf, Function.comp_def]
  rw [Removals, hfilter, List.forall₂_map_left_iff]
  exact List.forall₂_same.mpr fun _ _ => .refl _

omit [ToString (PyValue.Value φ)] in
/-- The service may accept one item first and the others in a second round. -/
theorem exists_two_rounds {batch : List (TableAndKey φ)} (h : 2 ≤ batch.length) :
    ∃ rounds : List (Round φ), Accepted (tableRequests batch) rounds ∧ rounds.length = 2 := by
  have hasked : ∀ batch : List (TableAndKey φ), batch ≠ [] → tableRequests batch ≠ [] := by
    intro batch hbatch hnil
    have hentries := (entries_tableRequests batch).length_eq
    rw [hnil, List.length_map] at hentries
    exact hbatch (List.length_eq_zero_iff.mp hentries.symm)
  match batch, h with
  | first :: second :: batch, _ =>
    refine ⟨[⟨[deleteOf first], tableRequests (second :: batch)⟩,
      ⟨entries (tableRequests (second :: batch)), []⟩], .round (hasked _ (by simp)) ?_
        (.round (hasked _ (by simp)) (by simp [entries]) .done), rfl⟩
    exact ((entries_tableRequests (second :: batch)).append_left [deleteOf first]).trans
      (entries_tableRequests (first :: second :: batch)).symm

omit [ToString (PyValue.Value φ)] in
theorem exists_rounds (batches : List (List (TableAndKey φ)))
    (h : ∀ batch ∈ batches, 2 ≤ batch.length) : ∃ rounds : List (List (Round φ)),
    List.Forall₂ (fun batch rounds => Accepted (tableRequests batch) rounds) batches rounds ∧
      ∀ batchRounds ∈ rounds, batchRounds.length = 2 := by
  induction batches with
  | nil => exact ⟨[], .nil, by simp⟩
  | cons batch batches ih =>
    obtain ⟨first, hfirst, htwo⟩ := exists_two_rounds (h batch List.mem_cons_self)
    obtain ⟨rounds, hrounds, hall⟩ := ih fun batch hbatch => h batch (List.mem_cons_of_mem _ hbatch)
    exact ⟨first :: rounds, .cons hfirst hrounds, List.forall_mem_cons.mpr ⟨htwo, hall⟩⟩

/-- A worker processes a full batch, and the thread that joins what is left. -/
theorem invoked_mixed : ∃ batches, Invoked mixedRecords batches ∧
    batches.map List.length = [25, 2] := by
  obtain ⟨s, hs, hp⟩ := exists_run_of_exec free_of_check deleteGroup.step
    (initial ((contextItems nineSessions : List (TableAndKey Empty)).map .add))
    (List.replicate 29 (.producer false) ++ List.replicate 3 (.worker 0 false) ++
      List.replicate 6 (.producer false) ++ [.worker 0 false] ++
      List.replicate 2 (.producer false))
    (fun s => s.processed.map List.length == [25, 2] &&
      match s.producer with | .returned => true | _ => false) (by decide +kernel)
  obtain ⟨hlengths, hreturned⟩ := Bool.and_eq_true_iff.mp hp
  have hreturned : s.producer = .returned := by
    split at hreturned
    · assumption
    · cases hreturned
  refine ⟨_, .deleted ?_ ((yields_contexts removals_mixed).mpr rfl) hs hreturned,
    beq_iff_eq.mp hlengths⟩
  intro hnone
  have hrows := rows_of_removals removals_mixed
  rw [hnone] at hrows
  cases hrows

theorem mixed_contexts_deleted_once : ∃ (batches : List (List (TableAndKey Empty)))
    (rounds : List (List (Round Empty))), Invoked mixedRecords batches ∧
      batches.map List.length = [25, 2] ∧ (∀ batchRounds ∈ rounds, batchRounds.length = 2) ∧
      List.Forall₂ (fun batch rounds => Accepted (tableRequests batch) rounds) batches rounds ∧
      DeletedOnce nineSessions (rounds.flatMap fun rounds => rounds.flatMap Round.accepted) := by
  obtain ⟨batches, hinvoked, hlengths⟩ := invoked_mixed
  have hlong : ∀ batch ∈ batches, 2 ≤ batch.length := by
    intro batch hbatch
    have hmem := List.mem_map_of_mem (f := List.length) hbatch
    rw [hlengths] at hmem
    simp only [List.mem_cons, List.not_mem_nil, or_false] at hmem
    omega
  obtain ⟨rounds, hrounds, htwo⟩ := exists_rounds batches hlong
  exact ⟨batches, rounds, hinvoked, hlengths, htwo, hrounds,
    ((removed_contexts_deleted_once removals_mixed (by decide)).2.1 batches hinvoked rounds
      hrounds).1⟩

end ShimService.TableListener
