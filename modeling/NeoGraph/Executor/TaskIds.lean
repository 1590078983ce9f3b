import Mathlib
import NeoGraph.Lib.Lists
import Std.Data.String.ToNat

/-!
# Task ids and effect namespaces

An invocation of a super-step is known by its task id: a static node by its
name, a Send by its place among the step's Sends, its target and a hash of
its payload. The effects of its first attempt are filed under the task id
itself, those of attempt `k` under the id with `#a<k>` behind it.

Ids are texts, and a node's name is any text: a node that is named like a
retry of another node has, as its task id, the namespace of that retry.
Nothing else is confused. Different attempts have different namespaces, no
Send is named like a retry, and an id tells the step it belongs to.
-/

namespace NeoGraph.Executor

open List

/-! ## Ids -/

/-- The FNV-1a hash of a text, with 64 bits. -/
def fnv1a64 (s : String) : UInt64 :=
  s.toUTF8.foldl (fun h c => (h ^^^ c.toUInt64) * 0x100000001b3) 0xcbf29ce484222325

/-- A hash in 16 hexadecimal digits. -/
def fnv1aHex (s : String) : String :=
  String.ofList ((range 16).reverse.map fun i =>
    ((fnv1a64 s).toNat / 16 ^ i % 16).digitChar)

/-- The task id of a static node. -/
def makeStaticTaskId (step : ℕ) (nodeName : String) : String :=
  "s" ++ step.repr ++ ":" ++ nodeName

/-- The task id of a Send; the payload is given by its text. -/
def makeSendTaskId (step index : ℕ) (target input : String) : String :=
  "s" ++ step.repr ++ ":send[" ++ index.repr ++ "]:" ++ target ++ ":" ++ fnv1aHex input

/-- The effect namespace of an attempt. -/
def attemptEffectNamespace (taskId : String) (attempt : ℕ) : String :=
  if attempt > 0 then taskId ++ "#a" ++ attempt.repr else taskId

/-- What follows the first colon of an id, when it has one. -/
def afterColon (id : String) : Option String :=
  match id.toList.dropWhile (· ≠ ':') with
  | [] => none
  | _ :: rest => some (String.ofList rest)

theorem notMem_toList_repr {n : ℕ} {c : Char} (hc : c.isDigit = false) : c ∉ n.repr.toList := by
  intro h
  rw [Nat.toList_repr] at h
  have hdig := Nat.isDigit_of_mem_toDigits (by decide) (by decide) h
  rw [hc] at hdig
  exact Bool.false_ne_true hdig

/-! ## Attempts -/

variable {attempt step : ℕ}

theorem toList_attemptEffectNamespace (taskId : String) (h : 0 < attempt) :
    (attemptEffectNamespace taskId attempt).toList
      = taskId.toList ++ '#' :: ('a' :: attempt.repr.toList) := by
  unfold attemptEffectNamespace
  rw [if_pos h, String.toList_append, String.toList_append, append_assoc]
  rfl

theorem notMem_attemptSuffix (attempt : ℕ) : '#' ∉ 'a' :: attempt.repr.toList := by
  rw [mem_cons, not_or]
  exact ⟨by decide, notMem_toList_repr (by decide)⟩

/-- **No two retries share a namespace**, whatever their tasks are. -/
theorem attemptEffectNamespace_inj {taskId taskId' : String} {j j' : ℕ} (hj : 0 < j)
    (hj' : 0 < j') (h : attemptEffectNamespace taskId j = attemptEffectNamespace taskId' j') :
    taskId = taskId' ∧ j = j' := by
  rw [← String.toList_inj, toList_attemptEffectNamespace _ hj,
    toList_attemptEffectNamespace _ hj'] at h
  obtain ⟨htk, hsuffix⟩ :=
    append_cons_inj_right (notMem_attemptSuffix j) (notMem_attemptSuffix j') h
  have hdig := (cons.inj hsuffix).2
  exact ⟨String.toList_inj.mp htk, Nat.repr_inj.mp (String.toList_inj.mp hdig)⟩

theorem toList_fnv1aHex (s : String) : (fnv1aHex s).toList = (range 16).reverse.map fun i =>
      ((fnv1a64 s).toNat / 16 ^ i % 16).digitChar := by
  unfold fnv1aHex
  rw [String.toList_ofList]

theorem notMem_fnv1aHex (s : String) : '#' ∉ (fnv1aHex s).toList := by
  rw [toList_fnv1aHex, mem_map]
  rintro ⟨i, -, hi⟩
  have hlt : (fnv1a64 s).toNat / 16 ^ i % 16 < 16 := Nat.mod_lt _ (by decide)
  have hdig : ∀ d < 16, Nat.digitChar d ≠ '#' := by decide
  exact hdig _ hlt hi

/-- The characters of the id of a Send. -/
theorem toList_makeSendTaskId (step index : ℕ) (target input : String) :
    (makeSendTaskId step index target input).toList
      = ("s" ++ step.repr ++ ":send[" ++ index.repr ++ "]:" ++ target).toList
        ++ ':' :: (fnv1aHex input).toList := by
  unfold makeSendTaskId
  rw [String.toList_append, String.toList_append, append_assoc]
  rfl

/-- **No Send is named like a retry**: its id ends in a colon and
hexadecimal digits. -/
theorem makeSendTaskId_ne_attemptEffectNamespace (step index : ℕ) (target input taskId : String)
    (h : 0 < attempt) :
    makeSendTaskId step index target input ≠ attemptEffectNamespace taskId attempt := by
  intro heq
  rw [← String.toList_inj, toList_attemptEffectNamespace _ h, toList_makeSendTaskId] at heq
  -- the marks `:` and `#` stand apart: each would lie in the other's ending
  obtain ⟨c, -, hc⟩ | ⟨c, -, hc⟩ := append_eq_append_iff.mp heq
  · have hm : '#' ∈ ':' :: (fnv1aHex input).toList := by
      rw [hc]
      exact mem_append_right c mem_cons_self
    rw [mem_cons] at hm
    exact hm.elim (by decide) (notMem_fnv1aHex input)
  · have hm : ':' ∈ '#' :: 'a' :: attempt.repr.toList := by
      rw [hc]
      exact mem_append_right c mem_cons_self
    simp only [mem_cons] at hm
    exact hm.elim (by decide) fun h => h.elim (by decide) (notMem_toList_repr (by decide))

/-! ## The step of an id -/

/-- The id belongs to a step: it begins with its number and a colon. -/
def OfStep (step : ℕ) (id : String) : Prop :=
  ∃ rest, id = "s" ++ step.repr ++ ":" ++ rest

theorem ofStep_makeStaticTaskId (step : ℕ) (nodeName : String) :
    OfStep step (makeStaticTaskId step nodeName) := ⟨nodeName, rfl⟩

theorem ofStep_makeSendTaskId (step index : ℕ) (target input : String) :
    OfStep step (makeSendTaskId step index target input) := by
  refine ⟨"send[" ++ index.repr ++ "]:" ++ target ++ ":" ++ fnv1aHex input, ?_⟩
  unfold makeSendTaskId
  rw [show (":send[" : String) = ":" ++ "send[" from rfl]
  simp only [String.append_assoc]

theorem OfStep.attemptEffectNamespace {taskId : String} (h : OfStep step taskId)
    (attempt : ℕ) : OfStep step (attemptEffectNamespace taskId attempt) := by
  obtain ⟨rest, rfl⟩ := h
  unfold Executor.attemptEffectNamespace
  split
  · refine ⟨rest ++ "#a" ++ attempt.repr, ?_⟩
    simp only [String.append_assoc]
  · exact ⟨rest, rfl⟩

theorem toList_step_append (step : ℕ) (rest : String) :
    ("s" ++ step.repr ++ ":" ++ rest).toList = ('s' :: step.repr.toList) ++ ':' :: rest.toList := by
  rw [String.toList_append, String.toList_append, String.toList_append, append_assoc]
  rfl

theorem notMem_step (step : ℕ) : ':' ∉ 's' :: step.repr.toList := by
  rw [mem_cons, not_or]
  exact ⟨by decide, notMem_toList_repr (by decide)⟩

/-- An id belongs to one step. -/
theorem OfStep.unique {step' : ℕ} {id : String} (h : OfStep step id)
    (h' : OfStep step' id) : step = step' := by
  obtain ⟨rest, rfl⟩ := h
  obtain ⟨rest', h'⟩ := h'
  rw [← String.toList_inj, toList_step_append, toList_step_append] at h'
  obtain ⟨hs, -⟩ := append_cons_inj_left (notMem_step step) (notMem_step step') h'
  exact Nat.repr_inj.mp (String.toList_inj.mp (cons.inj hs).2)

/-- What follows the first colon of an id follows its step. -/
theorem afterColon_step_append (step : ℕ) (rest : String) :
    afterColon ("s" ++ step.repr ++ ":" ++ rest) = some rest := by
  unfold afterColon
  rw [toList_step_append, dropWhile_append_of_pos]
  · show some (String.ofList rest.toList) = some rest
    rw [String.ofList_toList]
  · intro c hc
    exact decide_eq_true fun h => notMem_step step (h ▸ hc)

/-- A static node that is named like a retry: the name is what follows the
first colon of the namespace. -/
theorem afterColon_makeStaticTaskId (step : ℕ) (nodeName : String) :
    afterColon (makeStaticTaskId step nodeName) = some nodeName :=
  afterColon_step_append step nodeName

end NeoGraph.Executor
