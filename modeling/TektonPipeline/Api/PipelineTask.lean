import TektonPipeline.Api.Params
import Mathlib.Data.List.Sort
import Mathlib.Data.List.Dedup

/-! The tasks of a pipeline, their matrix and what they depend on. -/

namespace TektonPipeline.Api
open TektonPipeline.ResultRef

structure IncludeParams where
  name : String := ""
  params : Params := []
  deriving DecidableEq

/-- A task without a matrix has the empty one. -/
structure Matrix where
  params : Params := []
  includes : List IncludeParams := []
  deriving DecidableEq

def Matrix.hasParams (m : Matrix) : Bool := !m.params.isEmpty

def Matrix.hasInclude (m : Matrix) : Bool := !m.includes.isEmpty

abbrev Combination := List (String × String)

def Combination.set (c : Combination) (name value : String) : Combination :=
  if c.any fun e => e.1 == name then c.map fun e => if e.1 = name then (name, value) else e
  else c ++ [(name, value)]

/-- Whether no parameter of the include is given another value by the combination. -/
def Combination.contains (c ic : Combination) : Bool :=
  ic.all fun e =>
    match c.lookup e.1 with
    | some value => value == e.2
    | none => true

def initializeCombinations (p : Param) : List Combination :=
  p.value.arrayVal.map fun value => [(p.name, value)]

def distribute (cs : List Combination) (p : Param) : List Combination :=
  p.value.arrayVal.flatMap fun value => cs.map fun c => c.set p.name value

def fanOutMatrixParams (cs : List Combination) (p : Param) : List Combination :=
  if cs.isEmpty then initializeCombinations p else distribute cs p

def Matrix.getIncludeCombinations (m : Matrix) : List Combination :=
  m.includes.map fun i => i.params.foldl (fun c p => c.set p.name p.value.stringVal) []

def overwriteCombinations (cs ics : List Combination) : List Combination :=
  cs.map fun c => ics.foldl
    (fun c ic => if c.contains ic then ic.foldl (fun c e => c.set e.1 e.2) c else c) c

def shouldAddNewCombination (cs : List Combination) (ic : Combination) : Bool :=
  !ic.isEmpty && cs.all fun c => ic.all fun e => c.lookup e.1 != some e.2

def addNewCombinations (cs ics : List Combination) : List Combination :=
  ics.foldl (fun cs ic => if shouldAddNewCombination cs ic then cs ++ [ic] else cs) cs

/-- The parameters of a combination, in the order of their names. -/
def Combination.toParams (c : Combination) : Params :=
  (c.insertionSort fun a b => a.1 ≤ b.1).map fun e => ⟨e.1, { stringVal := e.2 }⟩

def Matrix.fanOut (m : Matrix) : List Params :=
  let includeCombinations := m.getIncludeCombinations
  if m.hasInclude && !m.hasParams then includeCombinations.map Combination.toParams
  else
    let combinations := m.params.foldl fanOutMatrixParams []
    (addNewCombinations (overwriteCombinations combinations includeCombinations)
      includeCombinations).map Combination.toParams

def Matrix.countGeneratedCombinationsFromParams (m : Matrix) : Nat :=
  if m.hasParams then m.params.foldl (fun count p => count * p.value.arrayVal.length) 1 else 0

/-- The count of one include stops at the first parameter whose value the matrix has. -/
def countNewCombinations (matrixParams : List (String × List String)) : Params → Nat
  | [] => 0
  | p :: ps =>
    match matrixParams.lookup p.name with
    | none => countNewCombinations matrixParams ps
    | some values =>
      if p.value.stringVal ∈ values then 0 else 1 + countNewCombinations matrixParams ps

def Matrix.countNewCombinationsFromInclude (m : Matrix) : Nat :=
  if !m.hasInclude then 0
  else if !m.hasParams then m.includes.length
  else
    let matrixParams := (m.params.map fun p => (p.name, p.value.arrayVal)).reverse
    (m.includes.map fun i => countNewCombinations matrixParams i.params).sum

def Matrix.countCombinations (m : Matrix) : Nat :=
  m.countGeneratedCombinationsFromParams + m.countNewCombinationsFromInclude

inductive OnErrorType where
  | unset
  | continues
  | stopAndFail
  deriving DecidableEq

/-- `customTask` says whether the reference or the embedded task names a custom task;
`taskSpec` holds the texts of the steps and sidecars of an embedded task. -/
structure PipelineTask where
  name : String
  customTask : Bool := false
  runAfter : List String := []
  params : Params := []
  matrix : Matrix := {}
  when : WhenExpressions := []
  onError : OnErrorType := .unset
  taskSpec : List String := []
  deriving DecidableEq

def PipelineTask.isMatrixed (pt : PipelineTask) : Bool :=
  pt.matrix.hasParams || pt.matrix.hasInclude

structure ResultRef where
  pipelineTask : String
  result : String
  resultsIndex : Option Nat := none
  property : String := ""
  deriving DecidableEq

def newResultRefs (expressions : List String) : List ResultRef :=
  expressions.filterMap fun e =>
    (parseTaskExpression e).map fun r => ⟨r.resourceName, r.resultName, r.arrayIdx, r.objectKey⟩

def looksLikeContainsResultRefs (expressions : List String) : Bool :=
  expressions.any looksLikeResultRef

def PipelineTask.extractAllParams (pt : PipelineTask) : Params :=
  pt.params ++ pt.matrix.params ++ pt.matrix.includes.flatMap (·.params)

def pipelineTaskResultRefs (pt : PipelineTask) : List ResultRef :=
  pt.extractAllParams.flatMap (fun p => newResultRefs p.getVarSubstitutionExpressions) ++
    pt.when.flatMap (fun we => newResultRefs we.getVarSubstitutionExpressions) ++
    newResultRefs (pt.taskSpec.flatMap validateString)

def PipelineTask.deps (pt : PipelineTask) : List String :=
  (((pipelineTaskResultRefs pt).map (·.pipelineTask) ++ pt.runAfter).dedup).insertionSort (· ≤ ·)

def pipelineTaskListDeps (l : List PipelineTask) : List (String × List String) :=
  (l.map fun pt => (pt.name, pt.deps)).filter fun e => !e.2.isEmpty

theorem PipelineTask.mem_deps {pt : PipelineTask} {name : String} : name ∈ pt.deps ↔
      (∃ ref ∈ pipelineTaskResultRefs pt, ref.pipelineTask = name) ∨ name ∈ pt.runAfter := by
  simp [PipelineTask.deps, List.mem_insertionSort]

end TektonPipeline.Api
