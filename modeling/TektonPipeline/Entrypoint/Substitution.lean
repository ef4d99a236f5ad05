import TektonPipeline.Api.Params

/-! Step results substituted into the environment, the when expressions and the command of
a step, from whatever the earlier steps of the pod left in their result files. -/

namespace TektonPipeline.Entrypoint
open Api ResultRef List

inductive Fault where
  | error (message : String)
  | panic
  deriving DecidableEq

/-- `loadStepResult`: the value in a step's result file, or the error of reading it. -/
abbrev StepResults := String → String → Except String ResultValue

/-- The index of an array reference is not checked against the value that was loaded. -/
def findReplacement (load : StepResults) (s : String) : Except Fault (String × List String) :=
  match parseStepExpression (stripVarSubExpression s) with
  | none => .error (.error stepExpressionForms)
  | some pr =>
    match load pr.resourceName pr.resultName with
    | .error message => .error (.error message)
    | .ok result =>
      match pr.resultType with
      | .object =>
        .ok (if pr.objectKey = "" then "" else (result.objectVal.lookup pr.objectKey).getD "", [])
      | .array =>
        match pr.arrayIdx with
        | some i =>
          match result.arrayVal[i]? with
          | some v => .ok (v, [])
          | none => .error .panic
        | none => .ok ("", result.arrayVal)
      | .string => .ok (result.stringVal, [])

def notIsolated : Fault :=
  .error "value must be in \"$(steps.<step-name>.results.<result-name>[*])\" format, when using array results"

/-- The texts that take a single string: environment values, `input` and `cel`. -/
def replaceText (load : StepResults) : List String → String → Except Fault String
  | [], v => .ok v
  | m :: ms, v =>
    match findReplacement load m with
    | .error f => .error f
    | .ok (s, _) => replaceText load ms (replaceAll v m s)

def replaceEnv (load : StepResults) :
    List (String × String) → List (String × String) × Option Fault
  | [] => ([], none)
  | (k, val) :: env =>
    match replaceText load (stepResultMatches val) val with
    | .error f => ((k, val) :: env, some f)
    | .ok v =>
      let (env', f) := replaceEnv load env
      ((k, v) :: env', f)

/-- One of the `values` of a when expression; an array result stands alone and ends it. -/
def replaceValue (load : StepResults) (v : String) :
    List String → String → Except Fault (List String)
  | [], newV => .ok [newV]
  | m :: ms, newV =>
    match findReplacement load m with
    | .error f => .error f
    | .ok (s, array) =>
      if array = [] then replaceValue load v ms (replaceAll newV m s)
      else if v = m then .ok array
      else .error notIsolated

def replaceValues (load : StepResults) : List String → Except Fault (List String)
  | [] => .ok []
  | v :: vs =>
    match replaceValue load v (stepResultMatches v) v with
    | .error f => .error f
    | .ok new =>
      match replaceValues load vs with
      | .error f => .error f
      | .ok rest => .ok (new ++ rest)

/-- The expression is written in place, field by field, so an error leaves the fields
before it replaced. -/
def replaceWhenExpression (load : StepResults) (w : WhenExpression) :
    WhenExpression × Option Fault :=
  match replaceValues load w.values with
  | .error f => (w, some f)
  | .ok values =>
    match replaceText load (stepResultMatches w.input) w.input with
    | .error f => ({ w with values := values }, some f)
    | .ok input =>
      match replaceText load (stepResultMatches w.cel) w.cel with
      | .error f => ({ w with values := values, input := input }, some f)
      | .ok cel => ({ w with values := values, input := input, cel := cel }, none)

def replaceWhen (load : StepResults) : WhenExpressions → WhenExpressions × Option Fault
  | [] => ([], none)
  | w :: ws =>
    match replaceWhenExpression load w with
    | (w', some f) => (w' :: ws, some f)
    | (w', none) =>
      let (ws', f) := replaceWhen load ws
      (w' :: ws', f)

def replaceHead (m s : String) : List String → List String
  | [] => []
  | c :: cs => replaceAll c m s :: cs

def replaceWord (load : StepResults) (c : String) :
    List String → List String → Except Fault (List String)
  | [], newC => .ok newC
  | m :: ms, newC =>
    match findReplacement load m with
    | .error .panic => .error .panic
    | .error (.error _) =>
      .error (.error ("failed to find replacement for " ++ m ++ " to replace " ++ c))
    | .ok (s, array) =>
      if array = [] then replaceWord load c ms (replaceHead m s newC)
      else if c = m then replaceWord load c ms array
      else .error notIsolated

def replaceCommandAndArgs (load : StepResults) : List String → Except Fault (List String)
  | [] => .ok []
  | c :: cs =>
    match replaceWord load c (stepResultMatches c) [c] with
    | .error f => .error f
    | .ok new =>
      match replaceCommandAndArgs load cs with
      | .error f => .error f
      | .ok rest => .ok (new ++ rest)

structure StepTexts where
  environ : List (String × String)
  stepWhenExpressions : WhenExpressions
  command : List String
  deriving DecidableEq

def applyStepResultSubstitutions (load : StepResults) (e : StepTexts) : StepTexts × Option Fault :=
  match replaceEnv load e.environ with
  | (env, some f) => ({ e with environ := env }, some f)
  | (env, none) =>
    match replaceWhen load e.stepWhenExpressions with
    | (newWhen, some f) =>
      ({ e with environ := env, stepWhenExpressions := newWhen }, some f)
    | (newWhen, none) =>
      let e' := { e with environ := env, stepWhenExpressions := newWhen }
      match replaceCommandAndArgs load e.command with
      | .error f => (e', some f)
      | .ok newCommand => ({ e' with command := newCommand }, none)

inductive Site where
  | text
  | value
  | word
  deriving DecidableEq

structure Use where
  site : Site
  text : String
  expression : String
  deriving DecidableEq

def Use.fault (load : StepResults) (u : Use) : Option Fault :=
  match findReplacement load u.expression with
  | .error .panic => some .panic
  | .error (.error message) =>
    if u.site = .word then
      some (.error ("failed to find replacement for " ++ u.expression ++ " to replace " ++ u.text))
    else some (.error message)
  | .ok (_, array) =>
    if u.site ≠ .text ∧ array ≠ [] ∧ u.text ≠ u.expression then some notIsolated else none

def usesIn (site : Site) (text : String) : List Use :=
  (stepResultMatches text).map fun m => ⟨site, text, m⟩

def usesInWhen (w : WhenExpression) : List Use :=
  w.values.flatMap (usesIn .value) ++ (usesIn .text w.input ++ usesIn .text w.cel)

/-- The uses of step results in the order the substitution comes to them. -/
def StepTexts.uses (e : StepTexts) : List Use :=
  e.environ.flatMap (fun kv => usesIn .text kv.2) ++
    (e.stepWhenExpressions.flatMap usesInWhen ++ e.command.flatMap (usesIn .word))

def faultOf {α : Type} : Except Fault α → Option Fault
  | .ok _ => none
  | .error f => some f

theorem stepResultMatches_self {s : String} {before after : List String}
    (h : stepResultMatches s = before ++ s :: after) : after = [] := by
  have hpos : ∀ {t : List Char} {n : Nat}, stepResultUsage t = some n → 0 < n := by
    intro t n hn
    have hlen : "$(steps.".toList.length ≤ n := Text.le_of_andThen Text.le_of_literal hn
    exact Nat.lt_of_lt_of_le (by decide) hlen
  have hs : Text.findAll stepResultUsage s.toList =
      before.map String.toList ++ s.toList :: after.map String.toList := by
    have := congrArg (List.map String.toList) h
    simpa [stepResultMatches, Function.comp_def] using this
  simpa using Text.findAll_self hpos hs

variable (load : StepResults)

theorem replaceText_fault (text : String) (ms : List String) (v : String) :
    faultOf (replaceText load ms v) =
      (ms.map fun m => (⟨.text, text, m⟩ : Use)).findSome? (Use.fault load) := by
  induction ms generalizing v with
  | nil => rfl
  | cons m ms ih =>
    cases h : findReplacement load m with
    | error f => cases f <;> simp [replaceText, Use.fault, h, faultOf]
    | ok r => simpa [replaceText, Use.fault, h] using ih _

theorem usesIn_text_fault (v : String) : (usesIn .text v).findSome? (Use.fault load) =
      faultOf (replaceText load (stepResultMatches v) v) :=
  (replaceText_fault load v _ v).symm

theorem replaceEnv_fault (env : List (String × String)) : (replaceEnv load env).2 =
      (env.flatMap fun kv => usesIn .text kv.2).findSome? (Use.fault load) := by
  induction env with
  | nil => rfl
  | cons kv env ih =>
    obtain ⟨k, val⟩ := kv
    rw [flatMap_cons, findSome?_append, usesIn_text_fault, ← ih]
    cases h : replaceText load (stepResultMatches val) val with
    | error f => simp [replaceEnv, h, faultOf]
    | ok v => simp [replaceEnv, h, faultOf]

theorem replaceValue_fault (v : String) (ms : List String)
    (newV : String) (hv : ∀ before after, ms = before ++ v :: after → after = []) :
    faultOf (replaceValue load v ms newV) =
      (ms.map fun m => (⟨.value, v, m⟩ : Use)).findSome? (Use.fault load) := by
  induction ms generalizing newV with
  | nil => rfl
  | cons m ms ih =>
    have htail : ∀ before after, ms = before ++ v :: after → after = [] :=
      fun before after h => hv (m :: before) after (by simp [h])
    cases h : findReplacement load m with
    | error f => cases f <;> simp [replaceValue, Use.fault, h, faultOf]
    | ok r =>
      obtain ⟨s, array⟩ := r
      by_cases ha : array = []
      · simpa [replaceValue, Use.fault, h, ha] using ih _ htail
      · by_cases hm : v = m
        · -- The whole value is the match, so no match is left for the loop to look at.
          have hms : ms = [] := hv [] ms (by simp [hm])
          simp [replaceValue, Use.fault, h, ha, hm, hms, faultOf]
        · simp [replaceValue, Use.fault, h, ha, hm, faultOf]

theorem usesIn_value_fault (v : String) : (usesIn .value v).findSome? (Use.fault load) =
      faultOf (replaceValue load v (stepResultMatches v) v) :=
  (replaceValue_fault load v _ v fun _ _ h => stepResultMatches_self h).symm

theorem replaceValues_fault (vs : List String) :
    faultOf (replaceValues load vs) = (vs.flatMap (usesIn .value)).findSome? (Use.fault load) := by
  induction vs with
  | nil => rfl
  | cons v vs ih =>
    rw [flatMap_cons, findSome?_append, usesIn_value_fault, ← ih]
    cases h : replaceValue load v (stepResultMatches v) v with
    | error f => simp [replaceValues, h, faultOf]
    | ok new => cases h' : replaceValues load vs <;> simp [replaceValues, h, h', faultOf]

theorem replaceWhenExpression_fault (w : WhenExpression) :
    (replaceWhenExpression load w).2 = (usesInWhen w).findSome? (Use.fault load) := by
  rw [usesInWhen, findSome?_append, findSome?_append, ← replaceValues_fault,
    usesIn_text_fault, usesIn_text_fault]
  cases hv : replaceValues load w.values with
  | error f => simp [replaceWhenExpression, hv, faultOf]
  | ok values =>
    cases hi : replaceText load (stepResultMatches w.input) w.input with
    | error f => simp [replaceWhenExpression, hv, hi, faultOf]
    | ok input =>
      cases hc : replaceText load (stepResultMatches w.cel) w.cel <;>
        simp [replaceWhenExpression, hv, hi, hc, faultOf]

theorem replaceWhen_fault (ws : WhenExpressions) :
    (replaceWhen load ws).2 = (ws.flatMap usesInWhen).findSome? (Use.fault load) := by
  induction ws with
  | nil => rfl
  | cons w ws ih =>
    rw [flatMap_cons, findSome?_append, ← replaceWhenExpression_fault, ← ih]
    cases h : replaceWhenExpression load w with
    | mk w' f => cases f <;> simp [replaceWhen, h]

theorem replaceWord_fault (c : String) (ms newC : List String) :
    faultOf (replaceWord load c ms newC) =
      (ms.map fun m => (⟨.word, c, m⟩ : Use)).findSome? (Use.fault load) := by
  induction ms generalizing newC with
  | nil => rfl
  | cons m ms ih =>
    cases h : findReplacement load m with
    | error f => cases f <;> simp [replaceWord, Use.fault, h, faultOf]
    | ok r =>
      obtain ⟨s, array⟩ := r
      by_cases ha : array = []
      · simpa [replaceWord, Use.fault, h, ha] using ih _
      · by_cases hm : c = m
        · subst hm
          simpa [replaceWord, Use.fault, h, ha] using ih _
        · simp [replaceWord, Use.fault, h, ha, hm, faultOf]

theorem replaceCommandAndArgs_fault (cs : List String) : faultOf (replaceCommandAndArgs load cs) =
      (cs.flatMap (usesIn .word)).findSome? (Use.fault load) := by
  induction cs with
  | nil => rfl
  | cons c cs ih =>
    rw [flatMap_cons, findSome?_append, ← ih, usesIn, ← replaceWord_fault load c _ [c]]
    cases h : replaceWord load c (stepResultMatches c) [c] with
    | error f => simp [replaceCommandAndArgs, h, faultOf]
    | ok new =>
      cases h' : replaceCommandAndArgs load cs <;> simp [replaceCommandAndArgs, h, h', faultOf]

theorem applyStepResultSubstitutions_fault (e : StepTexts) :
    (applyStepResultSubstitutions load e).2 = e.uses.findSome? (Use.fault load) := by
  rw [StepTexts.uses, findSome?_append, findSome?_append, ← replaceEnv_fault,
    ← replaceWhen_fault, ← replaceCommandAndArgs_fault]
  cases he : replaceEnv load e.environ with
  | mk env f =>
    cases f with
    | some f => simp [applyStepResultSubstitutions, he]
    | none =>
      cases hw : replaceWhen load e.stepWhenExpressions with
      | mk newWhen f =>
        cases f with
        | some f => simp [applyStepResultSubstitutions, he, hw]
        | none =>
          cases hc : replaceCommandAndArgs load e.command <;>
            simp [applyStepResultSubstitutions, he, hw, hc, faultOf]

def Use.outOfRange (load : StepResults) (u : Use) : Prop :=
  ∃ pr result i, parseStepExpression (stripVarSubExpression u.expression) = some pr ∧
    load pr.resourceName pr.resultName = .ok result ∧ pr.resultType = .array ∧
    pr.arrayIdx = some i ∧ result.arrayVal.length ≤ i

theorem Use.fault_eq_panic_iff (u : Use) : u.fault load = some .panic ↔ u.outOfRange load := by
  unfold Use.fault Use.outOfRange findReplacement notIsolated
  cases hp : parseStepExpression (stripVarSubExpression u.expression) with
  | none => cases u.site <;> simp
  | some pr =>
    cases hl : load pr.resourceName pr.resultName with
    | error message => cases u.site <;> simp [hl]
    | ok result =>
      cases ht : pr.resultType with
      | object => simp [hl, ht]
      | string => simp [hl, ht]
      | array =>
        cases hi : pr.arrayIdx with
        | none => simp [hl, ht, hi]
        | some i =>
          by_cases hlt : i < result.arrayVal.length
          · simp [hl, ht, hi, hlt]
          · have hle : result.arrayVal.length ≤ i := by omega
            simp [hl, ht, hi, hle]

end TektonPipeline.Entrypoint
