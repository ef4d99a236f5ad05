import TektonPipeline.Termination.Message

/-! Writing to one termination message again and again. Each call reads the file, adds its
results to those it finds and writes all of them over the old content, which is not truncated. -/

namespace TektonPipeline.Termination
open List

/-- What the file encodes; nothing if it is absent or not an encoding. -/
def entries (j : Json) (file : Option (List UInt8)) : List RunResult :=
  match file with
  | none => []
  | some fileContents => (j.unmarshal fileContents).toOption.getD []

def output (j : Json) (file : Option (List UInt8)) (pro : List RunResult) : List UInt8 :=
  j.marshal (entries j file ++ pro)

def TooLong (j : Json) (file : Option (List UInt8)) (pro : List RunResult) : Prop :=
  maxContainerTerminationMessageLength < (output j file pro).length

def afterWrite (j : Json) (file : Option (List UInt8)) (pro : List RunResult) :
    Option (List UInt8) :=
  match writeMessage j file pro with
  | .ok file => file
  | .error _ => file

/-- After each call that succeeds the file is the encoding of what it encoded before and of the
new results, and after one that fails it is as it was. -/
def WritesExact (j : Json) : List (List RunResult) → Option (List UInt8) → Prop
  | [], _ => True
  | pro :: rest, file =>
    (∀ file', writeMessage j file pro = .ok file' → file' = some (output j file pro)) ∧
    (writeMessage j file pro = .error .tooLong → afterWrite j file pro = file) ∧
    WritesExact j rest (afterWrite j file pro)

/-- What is written after `l` can be read again, whichever of the calls succeed. -/
def ReadBack (j : Json) (l : List RunResult) (calls : List (List RunResult)) : Prop :=
  ∀ written : List (List RunResult), written.Sublist calls →
    j.unmarshal (j.marshal (l ++ written.flatten)) = .ok (l ++ written.flatten)

section
variable {j : Json} {file : Option (List UInt8)} {pro : List RunResult}

theorem writeMessage_eq : writeMessage j file pro =
    if maxContainerTerminationMessageLength < (output j file pro).length then .error .tooLong
    else .ok (some (output j file pro ++ (file.getD []).drop (output j file pro).length)) := by
  cases file with
  | none => simp [writeMessage, output, entries]
  | some fileContents =>
    cases h : j.unmarshal fileContents with
    | ok existing => simp [writeMessage, output, entries, h, Except.toOption]
    | error e => simp [writeMessage, output, entries, h, Except.toOption]

theorem writeMessage_tooLong (h : TooLong j file pro) :
    writeMessage j file pro = .error .tooLong := by
  rw [writeMessage_eq]
  exact if_pos h

theorem writeMessage_ok (h : ¬ TooLong j file pro) : writeMessage j file pro =
      .ok (some (output j file pro ++ (file.getD []).drop (output j file pro).length)) := by
  rw [writeMessage_eq]
  exact if_neg h

theorem ReadBack.cons {l : List RunResult} {rest : List (List RunResult)}
    (h : ReadBack j l (pro :: rest)) : ReadBack j (l ++ pro) rest := by
  intro written hsub
  have hcons := h (pro :: written) (hsub.cons_cons pro)
  rwa [flatten_cons, ← append_assoc] at hcons

theorem writesExact_written {rest : List (List RunResult)} {l : List RunResult}
    (hback : ReadBack j l rest) : WritesExact j rest (some (j.marshal l)) := by
  induction rest generalizing l with
  | nil => trivial
  | cons pro rest ih =>
    have hread : j.unmarshal (j.marshal l) = .ok l := by
      simpa using hback [] (nil_sublist _)
    have hout : output j (some (j.marshal l)) pro = j.marshal (l ++ pro) := by
      simp [output, entries, hread, Except.toOption]
    rw [WritesExact, afterWrite, writeMessage_written hread, hout]
    split
    · refine ⟨fun file' h => (by cases h), fun _ => rfl, ?_⟩
      exact ih fun written hsub => hback written (hsub.cons pro)
    · exact ⟨fun file' h => (Except.ok.inj h).symm, fun h => (by cases h), ih hback.cons⟩

end

/-- Calls are exact exactly if the first that succeeds covers all of what was in the file. -/
theorem writesExact_iff (j : Json) (file : Option (List UInt8)) (calls : List (List RunResult))
    (hback : ReadBack j (entries j file) calls) : WritesExact j calls file ↔
      ∀ before pro after, calls = before ++ pro :: after → (∀ p ∈ before, TooLong j file p) →
        ¬ TooLong j file pro → (file.getD []).length ≤ (output j file pro).length := by
  induction calls with
  | nil => exact iff_of_true trivial fun before pro after h => by simp at h
  | cons pro rest ih =>
    rw [WritesExact, afterWrite]
    by_cases hlong : TooLong j file pro
    · rw [writeMessage_tooLong hlong, and_iff_right (fun file' h => by cases h),
        and_iff_right (fun _ => rfl), ih fun written hsub => hback written (hsub.cons pro)]
      constructor
      · intro h before pro' after hcalls hbefore hshort
        cases before with
        | nil => exact absurd ((List.cons.inj hcalls).1 ▸ hlong) hshort
        | cons first before =>
          exact h before pro' after (List.cons.inj hcalls).2
            (fun p hp => hbefore p (mem_cons_of_mem _ hp)) hshort
      · intro h before pro' after hcalls hbefore hshort
        refine h (pro :: before) pro' after (by rw [hcalls]; rfl) ?_ hshort
        exact forall_mem_cons.mpr ⟨hlong, hbefore⟩
    · rw [writeMessage_ok hlong]
      constructor
      · intro h before pro' after hcalls hbefore _
        cases before with
        | nil =>
          obtain rfl := (List.cons.inj hcalls).1
          have hsame := Option.some.inj (h.1 _ rfl)
          rw [append_right_eq_self, drop_eq_nil_iff] at hsame
          exact hsame
        | cons first before =>
          obtain rfl := (List.cons.inj hcalls).1
          exact absurd (hbefore pro mem_cons_self) hlong
      · intro h
        have hcovers := h [] pro rest rfl (fun p hp => by cases hp) hlong
        rw [drop_of_length_le hcovers, append_nil]
        exact ⟨fun file' h => (Except.ok.inj h).symm, fun h => (by cases h),
          writesExact_written hback.cons⟩

/-- A step that finds no file. -/
theorem taskDigest_written_exactly :
    ReadBack encodingJson [] [[taskDigest]] ∧ WritesExact encodingJson [[taskDigest]] none := by
  have hback : ReadBack encodingJson [] [[taskDigest]] := by
    intro written hsub
    rcases sublist_singleton.mp hsub with rfl | rfl <;> decide +kernel
  refine ⟨hback, (writesExact_iff encodingJson none _ hback).mpr ?_⟩
  intro before pro after _ _ _
  exact Nat.zero_le _

/-- A text that a tool has left, longer than the results. -/
def toolOutput : List UInt8 :=
  Text.utf8 "error: cannot push registry.example.com/app: connection refused"

/-- The end of the old text stays behind the results. -/
theorem oldText_left :
    ReadBack encodingJson (entries encodingJson (some toolOutput)) [[taskDigest]] ∧
    writeMessage encodingJson (some toolOutput) [taskDigest] =
      .ok (some (Text.utf8 ("[\x7b\"key\":\"digest\",\"value\":\"sha256:task\",\"type\":1\x7d]" ++
        "ection refused"))) ∧
    ¬ WritesExact encodingJson [[taskDigest]] (some toolOutput) := by
  have hnone : entries encodingJson (some toolOutput) = [] := by decide +kernel
  have hwritten : writeMessage encodingJson (some toolOutput) [taskDigest] =
      .ok (some (Text.utf8 ("[\x7b\"key\":\"digest\",\"value\":\"sha256:task\",\"type\":1\x7d]" ++
        "ection refused"))) := by
    decide +kernel
  refine ⟨?_, hwritten, fun h => ?_⟩
  · rw [hnone]
    intro written hsub
    rcases sublist_singleton.mp hsub with rfl | rfl <;> decide +kernel
  · have hexact := h.1 _ hwritten
    rw [output, hnone] at hexact
    revert hexact
    decide +kernel

end TektonPipeline.Termination
