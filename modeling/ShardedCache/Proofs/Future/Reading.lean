import ShardedCache.Future.Bulk
import ShardedCache.Future.Piped
import ShardedCache.Future.SortedGet
import ShardedCache.Proofs.Engine.Outline

/-!
# Reading a future

Futures of all kinds have operations and a latch. Whoever asks for the result of one waits for the latch
first (`Future.get_of_failed`); if that does not fail, only reading what has arrived can
(`Future.refuses_of_get`). No operation fails with a timeout, so that a timeout comes from waiting or
from reading.
-/

namespace ShardedCache

def CacheError.of? {α : Type} : Except CacheError α → Option CacheError
  | .ok _ => none
  | .error error => some error

theorem CacheError.of?_eq_some {α : Type} {result : Except CacheError α} {error : CacheError} :
    of? result = some error ↔ result = .error error := by
  cases result <;> simp [of?]

/-- Some value cannot be decoded, for the reason that the error gives. -/
def Transcoder.Refuses {α : Type} (t : Transcoder α) (error : CacheError) : Prop :=
  ∃ value, t.decode value = .error error

/-- The transcoders that a caller need not bring. -/
inductive Transcoder.IsProvided : {α : Type} → Transcoder α → Prop where
  | bytes : IsProvided bytes
  | text : IsProvided text
  | json {α : Type} (write : α → List Char) (read? : Bytes → Option α) :
    IsProvided (ofJson write read?)

/-- What calls return. -/
inductive Future where
  | shared {α : Type} (f : OperationFuture α)
  | bulk {α : Type} (f : BulkFuture α)
  | piped (f : PipedFuture)
  | sorted {α : Type} (f : SortedGetFuture α)

namespace Future

def operations : Future → List Nat
  | shared f => f.operations
  | bulk f => f.operations
  | piped f => f.operations
  | sorted f => f.operations

def latch (c : Cluster) : Future → Nat
  | shared f => f.latch c
  | bulk f => f.latch
  | piped f => f.latch
  | sorted f => f.latch

/-- Waits for the future. What it keeps for the next time it is asked, and the error if there is
one. -/
def get (c : Cluster) (timeout : Nat) : Future → Cluster × Future × Option CacheError
  | shared f => let (c, f, result) := f.get c timeout; (c, shared f, CacheError.of? result)
  | bulk f => let (c, f, result) := f.get c timeout; (c, bulk f, CacheError.of? result)
  | piped f => let (c, f, result) := f.get c timeout; (c, piped f, CacheError.of? result)
  | sorted f => let (c, f, result) := f.get c timeout; (c, sorted f, CacheError.of? result)

/-- The future, whatever it has kept of what it was asked before. -/
inductive Keeps : Future → Future → Prop where
  | shared {α : Type} (f : OperationFuture α) (value : Option α) :
    Keeps (shared f) (shared { f with value })
  | bulk {α : Type} (f : BulkFuture α) (decoded : KeyMap α) (timedOut : Bool)
    (final : Option (KeyMap α)) : Keeps (bulk f) (bulk { f with decoded, timedOut, final })
  | piped (f : PipedFuture) (failures : Option (List (Nat × Wire.Status))) :
    Keeps (piped f) (piped { f with failures })
  | sorted {α : Type} (f : SortedGetFuture α) (response : Option (SortedGetResponse α)) :
    Keeps (sorted f) (sorted { f with response })

/-- Reading what may have arrived can fail with the error. -/
def Refuses (error : CacheError) : Future → Prop
  | shared f => ∃ completion, f.decode completion = .error error
  | bulk f => f.transcoder.Refuses error
  | piped _ => False
  | sorted f => f.transcoder.Refuses error

/-- What the future reads from is there. -/
def Rests (c : Cluster) : Future → Prop
  | shared f => f.completion < c.engine.reports.outline.completions.length
  | bulk _ | piped _ => True
  | sorted f => f.answer < c.engine.reports.answers.length

theorem Keeps.same {f g : Future} (h : f.Keeps g) (c : Cluster) :
    g.latch c = f.latch c ∧ g.operations = f.operations ∧ (g.Rests c ↔ f.Rests c) := by
  cases h <;> exact ⟨rfl, rfl, Iff.rfl⟩

theorem Keeps.trans {f g h : Future} (hfg : f.Keeps g) (hgh : g.Keeps h) : f.Keeps h := by
  cases hfg with
  | shared f value =>
    cases hgh with
    | shared _ value => exact .shared f value
  | bulk f decoded timedOut final =>
    cases hgh with
    | bulk _ decoded timedOut final => exact .bulk f decoded timedOut final
  | piped f failures =>
    cases hgh with
    | piped _ failures => exact .piped f failures
  | sorted f response =>
    cases hgh with
    | sorted _ response => exact .sorted f response

theorem Keeps.refuses {f g : Future} (h : f.Keeps g) {error : CacheError} :
    g.Refuses error ↔ f.Refuses error := by
  cases h <;> exact Iff.rfl

end Future

/-! ## Errors -/

theorem Cluster.isTimeout_of_failure? {e : Engine} {id : Nat} {error : CacheError}
    (h : failure? e id = some error) : error.isTimeout = false := by
  unfold failure? at h
  split at h
  · split at h
    · cases h
      rfl
    · split at h <;> cases h
      rfl
  · cases h

/-- Values that cannot be decoded are no timeouts, unless a caller brings its own transcoder. -/
theorem Transcoder.IsProvided.isTimeout_of_refuses {α : Type} {t : Transcoder α} (ht : t.IsProvided)
    {error : CacheError} (h : t.Refuses error) : error.isTimeout = false := by
  obtain ⟨value, h⟩ := h
  cases ht with
  | bytes => cases h
  | text =>
    simp only [Transcoder.text] at h
    split at h <;> cases h
    rfl
  | json write read? =>
    simp only [ofJson] at h
    split at h
    · cases h
      rfl
    · split at h <;> cases h
      rfl

/-- No operation fails with a timeout, and neither do several. -/
theorem Cluster.isTimeout_of_failures {c : Cluster} {operations : List Nat} {error : CacheError}
    (h : c.failures operations = .error error) : error.isTimeout = false := by
  unfold failures at h
  split at h
  · next error' hfold =>
    cases h
    unfold CacheError.ofList? at hfold
    split at hfold
    · cases hfold
    · next heq =>
      cases hfold
      obtain ⟨id, -, hid⟩ := List.mem_filterMap.1 (heq ▸ List.mem_singleton_self error)
      exact isTimeout_of_failure? hid
    · cases hfold
      rfl
  · cases h

theorem OperationFuture.result_spec {α : Type} (f : OperationFuture α) (c : Cluster) :
    (∃ value, (f.result c).1 = { f with value }) ∧ ∀ {error},
      (f.result c).2 = .error error → ∃ completion, f.decode completion = .error error := by
  unfold result
  split
  · exact ⟨⟨_, rfl⟩, fun h => by cases h⟩
  · split
    · exact ⟨⟨_, rfl⟩, fun h => by cases h⟩
    · next heq => exact ⟨⟨_, rfl⟩, fun h => by cases h; exact ⟨_, heq⟩⟩

namespace BulkFuture

variable {α : Type}

theorem valueOf_spec (f : BulkFuture α) (c : Cluster) (entry : BulkEntry) :
    (∃ decoded, (f.valueOf c entry).1 = { f with decoded }) ∧ ∀ {error},
      (f.valueOf c entry).2 = .error error → f.transcoder.Refuses error := by
  unfold valueOf
  split
  · exact ⟨⟨_, rfl⟩, fun h => by cases h⟩
  · split
    · exact ⟨⟨_, rfl⟩, fun h => by cases h⟩
    · next data _ _ =>
      split
      · exact ⟨⟨_, rfl⟩, fun h => by cases h⟩
      · next heq => exact ⟨⟨_, rfl⟩, fun h => by cases h; exact ⟨data, heq⟩⟩

/-- Values are kept once they have been decoded, and nothing else changes. -/
theorem collect_spec (c : Cluster) : ∀ (entries : List BulkEntry) (found : KeyMap α) (f : BulkFuture α),
    (∃ decoded, (collect c entries found f).1 = { f with decoded }) ∧ ∀ {error},
      (collect c entries found f).2 = .error error → f.transcoder.Refuses error
  | [], _, _ => ⟨⟨_, rfl⟩, fun h => by cases h⟩
  | entry :: rest, found, f => by
    obtain ⟨⟨decoded, hdecoded⟩, herror⟩ := f.valueOf_spec c entry
    unfold collect
    split
    · next f' value heq =>
      rw [heq] at hdecoded
      cases hdecoded
      exact collect_spec c rest (KeyMap.insert found entry.key value) { f with decoded }
    · next f' heq =>
      rw [heq] at hdecoded
      cases hdecoded
      exact collect_spec c rest found { f with decoded }
    · next heq =>
      rw [heq] at hdecoded
      exact ⟨⟨decoded, hdecoded⟩, fun h => by cases h; exact herror (congrArg Prod.snd heq)⟩

end BulkFuture

/-- Concluding an answer leaves it where it is. -/
theorem SortedGetFuture.isSome_conclude {α : Type} (f : SortedGetFuture α) {c : Cluster}
    (h : f.answer < c.engine.reports.answers.length) : (f.conclude c).2.isSome := by
  simpa [conclude, Cluster.mapReports, Reports.modifyAnswer] using h

theorem SortedGetFuture.decode_of_mapM {α : Type} {t : Transcoder α} {error : CacheError} :
    ∀ elements : List (SortedGet.Element StoredValue),
      elements.mapM (decodeElement t) = .error error → t.Refuses error
  | [], h => by cases h
  | element :: elements, h => by
    rw [List.mapM_cons] at h
    cases hfirst : t.decode element.value with
    | error error' =>
      rw [decodeElement, hfirst] at h
      cases h
      exact ⟨_, hfirst⟩
    | ok value =>
      rw [decodeElement, hfirst] at h
      cases hrest : elements.mapM (decodeElement t) with
      | error error' =>
        rw [hrest] at h
        cases h
        exact decode_of_mapM elements hrest
      | ok decoded =>
        rw [hrest] at h
        cases h

namespace Future

/-- A future that has been asked is the same but for what it keeps. -/
theorem keeps_get (c : Cluster) (f : Future) (timeout : Nat) : f.Keeps (f.get c timeout).2.1 := by
  cases f with
  | shared f =>
    simp only [get, OperationFuture.get]
    split
    · next c₁ _ _ =>
      obtain ⟨⟨value, hvalue⟩, -⟩ := f.result_spec c₁
      rw [hvalue]
      exact .shared f value
    · exact .shared f _
  | bulk f =>
    simp only [get, BulkFuture.get]
    split
    · exact .bulk f _ _ _
    · next c₁ _ _ =>
      split
      · exact .bulk f _ _ _
      · obtain ⟨⟨decoded, hdecoded⟩, -⟩ := BulkFuture.collect_spec c₁ f.entries [] f
        split <;>
        · next heq =>
          rw [heq] at hdecoded
          cases hdecoded
          exact .bulk f _ _ _
  | piped f =>
    simp only [get, PipedFuture.get]
    split <;> exact .piped f _
  | sorted f =>
    simp only [get, SortedGetFuture.get]
    split
    · exact .sorted f _
    · split
      · exact .sorted f _
      · split
        · exact .sorted f _
        · split <;> exact .sorted f _

variable {c c' : Cluster} {f : Future} {timeout : Nat} {error : CacheError}

/-- A wait that fails is the end of it. -/
theorem get_of_failed (h : c.settleAll (f.latch c) f.operations timeout = (c', .error error)) :
    f.get c timeout = (c', f, some error) := by
  cases f with
  | shared f =>
    simp only [latch, operations] at h
    simp only [get, OperationFuture.get, h, CacheError.of?]
  | bulk f =>
    simp only [latch, operations] at h
    simp only [get, BulkFuture.get, h, CacheError.of?]
  | piped f =>
    simp only [latch, operations] at h
    simp only [get, PipedFuture.get, h, CacheError.of?]
  | sorted f =>
    simp only [latch, operations] at h
    simp only [get, SortedGetFuture.get, h, CacheError.of?]

/-- After a wait that does not fail, only reading what has arrived can. -/
theorem refuses_of_get (h : c.settleAll (f.latch c) f.operations timeout = (c', .ok ()))
    (hrests : f.Rests c') (herror : (f.get c timeout).2.2 = some error) : f.Refuses error := by
  cases f with
  | shared f =>
    simp only [latch, operations] at h
    simp only [get, OperationFuture.get, h] at herror
    exact (f.result_spec c').2 (CacheError.of?_eq_some.1 herror)
  | bulk f =>
    simp only [latch, operations] at h
    simp only [get, BulkFuture.get, h] at herror
    split at herror
    · cases herror
    · split at herror
      · cases herror
      · next heq =>
        cases herror
        exact (BulkFuture.collect_spec c' f.entries [] f).2 (congrArg Prod.snd heq)
  | piped f =>
    simp only [latch, operations] at h
    simp only [get, PipedFuture.get, h] at herror
    cases herror
  | sorted f =>
    simp only [latch, operations] at h
    simp only [get, SortedGetFuture.get, h] at herror
    split at herror
    · cases herror
    · split at herror
      · next heq =>
        have hsome := f.isSome_conclude hrests
        rw [heq] at hsome
        cases hsome
      · split at herror
        · next heq =>
          cases herror
          exact SortedGetFuture.decode_of_mapM _ heq
        · cases herror

end Future

end ShardedCache
