import TektonPipeline.Api.ParamSpecs
import TektonPipeline.Api.PipelineTask
import TektonPipeline.Pipeline.Workspaces
import TektonPipeline.TaskRun.TaskSpec

/-! `ApplyParameters`: the tables of replacements that the defaults of a pipeline and the
parameters of its run make up, and the fields of the tasks they are applied to. -/

namespace TektonPipeline.Parameters
open Api Tasks Workspaces

structure TaskRef where
  name : String := ""
  params : Params := []
  deriving DecidableEq

structure PipelineTask where
  name : String
  displayName : String := ""
  params : Params := []
  matrix : Matrix := {}
  workspaces : List WorkspacePipelineTaskBinding := []
  when : WhenExpressions := []
  taskRef : Option TaskRef := none
  taskSpec : Option TaskSpec := none
  deriving DecidableEq

structure PipelineSpec where
  params : List ParamSpec := []
  tasks : List PipelineTask := []
  finalTasks : List PipelineTask := []
  deriving DecidableEq

def PipelineTask.isMatrixed (t : PipelineTask) : Bool :=
  t.matrix.hasParams || t.matrix.hasInclude

/-- `paramPatterns` with a name in place of `%s` and `%q`. -/
def paramPatterns (name : String) : List String :=
  ["params." ++ name, "params[\"" ++ name ++ "\"]", "params['" ++ name ++ "']"]

def objectIndividualVariable (name key : String) : String := "params." ++ name ++ "." ++ key

def indexed (pattern : String) (i : Nat) : String := pattern ++ "[" ++ toString i ++ "]"

/-- Of two entries of an object for one key the first counts, and so is written last. -/
def objectKeyWrites (name : String) (o : List (String × String)) : List (String × String) :=
  o.reverse.map fun e => (objectIndividualVariable name e.1, e.2)

def stringWrites (p : Param) : List (String × String) :=
  match p.value.type with
  | .array => (paramPatterns p.name).flatMap fun pattern =>
      p.value.arrayVal.zipIdx.map fun e => (indexed pattern e.2, e.1)
  | .object => objectKeyWrites p.name p.value.objectVal
  | .string => (paramPatterns p.name).map fun pattern => (pattern, p.value.stringVal)

def arrayWrites (p : Param) : List (String × List String) :=
  match p.value.type with
  | .array => (paramPatterns p.name).map fun pattern => (pattern, p.value.arrayVal)
  | _ => []

def objectWrites (p : Param) : List (String × List (String × String)) :=
  match p.value.type with
  | .object => (paramPatterns p.name).map fun pattern => (pattern, p.value.objectVal)
  | _ => []

def replacementsOf (ps : Params) : Replacements where
  strings := Table.puts [] (ps.flatMap stringWrites)
  arrays := Table.puts [] (ps.flatMap arrayWrites)
  objects := Table.puts [] (ps.flatMap objectWrites)

def defaults (declared : List ParamSpec) : Params :=
  declared.filterMap fun p => p.default.map (Param.mk p.name)

def paramsFromPipelineRun (given : Params) : Replacements := replacementsOf given

/-- The entries of the run's maps are set and overwritten in those of the defaults. -/
def parameterReplacements (declared : List ParamSpec) (given : Params) : Replacements :=
  let d := replacementsOf (defaults declared)
  let pr := paramsFromPipelineRun given
  { strings := Table.puts d.strings pr.strings.reverse
    arrays := Table.puts d.arrays pr.arrays.reverse
    objects := Table.puts d.objects pr.objects.reverse }

/-- One notation of a parameter of a task: where the pipeline's tables have an entry for it,
the task's value takes its place. -/
def scopeKey (par : Param) (r : Replacements) (checkName : String) : Replacements :=
  let strings := Table.overwrite r.strings checkName par.value.stringVal
  { strings := if (r.objects.lookup checkName).isSome then
        Table.puts strings (objectKeyWrites par.name par.value.objectVal) else strings
    arrays := Table.overwrite r.arrays checkName par.value.arrayVal
    objects := Table.overwrite r.objects checkName par.value.objectVal }

def scopeParam (r : Replacements) (par : Param) : Replacements :=
  (paramPatterns par.name).foldl (scopeKey par) r

/-- The tables in the scope of a task; without parameters they stay as they are. -/
def scopeParams (r : Replacements) (ps : Params) : Replacements := ps.foldl scopeParam r

def propagateParams (t : PipelineTask) (r : Replacements) : PipelineTask :=
  { t with taskSpec := t.taskSpec.map (TaskSpec.applyReplacements (scopeParams r t.params)) }

/-- The parameters of the includes are strings, and those of a matrix no objects. -/
def replaceMatrix (m : Matrix) (r : Replacements) : Matrix where
  params := m.params.replaceVariables { r with objects := [] }
  includes := m.includes.map fun i =>
    { i with params := i.params.replaceVariables { strings := r.strings } }

def TaskRef.applyReplacements (r : Replacements) (ref : TaskRef) : TaskRef where
  name := Api.applyReplacements ref.name r.strings
  params := ref.params.replaceVariables r

def PipelineTask.replaceFields (t : PipelineTask) (r : Replacements) : PipelineTask where
  name := t.name
  displayName := if t.isMatrixed then t.displayName
    else Api.applyReplacements t.displayName r.strings
  params := t.params.replaceVariables r
  matrix := if t.isMatrixed then replaceMatrix t.matrix r else t.matrix
  workspaces := t.workspaces.map fun w =>
    { w with subPath := Api.applyReplacements w.subPath r.strings }
  when := t.when.replaceVariables r
  taskRef := t.taskRef.map (TaskRef.applyReplacements r)
  taskSpec := t.taskSpec

def PipelineTask.applyReplacements (r : Replacements) (t : PipelineTask) : PipelineTask :=
  propagateParams (t.replaceFields r) r

def PipelineSpec.applyReplacements (p : PipelineSpec) (r : Replacements) : PipelineSpec where
  params := p.params
  tasks := p.tasks.map (PipelineTask.applyReplacements r)
  finalTasks := p.finalTasks.map (PipelineTask.applyReplacements r)

def applyParameters (p : PipelineSpec) (given : Params) : PipelineSpec :=
  p.applyReplacements (parameterReplacements p.params given)

theorem parameterReplacements_eq (declared : List ParamSpec) (given : Params) :
    parameterReplacements declared given = replacementsOf (defaults declared ++ given) := by
  simp [parameterReplacements, paramsFromPipelineRun, replacementsOf, Table.puts_append,
    Table.puts_reverse_puts]

theorem objectIndividualVariable_injective {o k k' : String}
    (h : objectIndividualVariable o k = objectIndividualVariable o k') : k = k' := by
  simpa [objectIndividualVariable, String.append_right_inj] using h

section
variable (A : List (String × List String)) (O : List (String × List (String × String)))

def matrixSites (m : Matrix) : List Site :=
  m.params.sites A [] ++ m.includes.flatMap fun i => i.params.sites [] []

def TaskRef.sites (ref : TaskRef) : List Site := .text ref.name :: ref.params.sites A O

def PipelineTask.fieldSites (t : PipelineTask) : List Site :=
  (if t.isMatrixed then matrixSites A t.matrix else [.text t.displayName]) ++
    t.params.sites A O ++ t.workspaces.map (fun w => .text w.subPath) ++ t.when.sites A ++
    t.taskRef.toList.flatMap (TaskRef.sites A O)

end

section
variable {S S' : List (String × String)} {A : List (String × List String)}
  {O : List (String × List (String × String))}

@[simp] theorem replaceMatrix_eq_iff (m : Matrix) :
    replaceMatrix m ⟨S, A, O⟩ = replaceMatrix m ⟨S', A, O⟩ ↔ Agree S S' (matrixSites A m) := by
  simp [replaceMatrix, matrixSites]

@[simp] theorem TaskRef.applyReplacements_eq_iff (ref : TaskRef) :
    ref.applyReplacements ⟨S, A, O⟩ = ref.applyReplacements ⟨S', A, O⟩ ↔
      Agree S S' (ref.sites A O) := by
  simp only [applyReplacements, sites, TaskRef.mk.injEq, Params.replaceVariables_eq_iff,
    agree_cons, Site.apply]

theorem PipelineTask.replaceFields_eq_iff (t : PipelineTask) :
    t.replaceFields ⟨S, A, O⟩ = t.replaceFields ⟨S', A, O⟩ ↔ Agree S S' (t.fieldSites A O) := by
  have hworkspace : ∀ w : WorkspacePipelineTaskBinding,
      ({ w with subPath := Api.applyReplacements w.subPath S } : WorkspacePipelineTaskBinding) =
        { w with subPath := Api.applyReplacements w.subPath S' } ↔
      Api.applyReplacements w.subPath S = Api.applyReplacements w.subPath S' := by
    simp
  unfold replaceFields fieldSites
  cases t.isMatrixed with
  | true =>
    simp only [if_true, PipelineTask.mk.injEq, replaceMatrix_eq_iff, Params.replaceVariables_eq_iff,
      WhenExpressions.replaceVariables_eq_iff, map_eq_map_iff, TaskRef.applyReplacements_eq_iff,
      List.map_inj_left, hworkspace, agree_append, agree_flatMap, agree_map, Site.apply, true_and,
      and_true, and_assoc]
    tauto
  | false =>
    simp [hworkspace, Site.apply]

end

end TektonPipeline.Parameters
