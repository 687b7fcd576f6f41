import Arithmetization.Proofs.Json
import Arithmetization.Report.Structured

/-! # A report as JSON determines the analysis

Every part of an analysis is written as a value that tells the part from all others of its kind:
names tell operators, quantifiers and kinds of steps, one character tells a symbol, and null stands
for an absent one. The values tell the analysis together, and their text tells the values.
-/

namespace Arithmetization

theorem Symbol.text_injective : Function.Injective text := by
  intro s t same
  rw [text, text, String.singleton_inj] at same
  exact char_injective s s.mem_all t t.mem_all same

theorem Symbol.toJson_injective : Function.Injective toJson := by
  intro s t same
  exact text_injective (Json.text.inj same)

theorem StepKind.name_injective : Function.Injective name := by
  intro kind kind' same
  cases kind <;> cases kind' <;> first | rfl | exact absurd same (by decide)

namespace Report

theorem operatorName_injective : Function.Injective operatorName := by
  intro op op' same
  cases op <;> cases op' <;> first | rfl | exact absurd same (by decide)

theorem quantifierName_injective : Function.Injective quantifierName := by
  intro q q' same
  cases q <;> cases q' <;> first | rfl | exact absurd same (by decide)

/-- Null stands for an absent symbol only. -/
theorem optionalSymbol_injective : Function.Injective optionalSymbol := by
  intro symbol symbol' same
  cases symbol with
  | none =>
    cases symbol' with
    | none => rfl
    | some t => contradiction
  | some s =>
    cases symbol' with
    | none => contradiction
    | some t => rw [Symbol.toJson_injective same]

theorem expressionJson_injective : Function.Injective expressionJson := by
  intro e e' same
  induction e generalizing e' with
  | atom symbol =>
    cases e' with
    | atom symbol' =>
      have symbols : optionalSymbol symbol = optionalSymbol symbol' := by
        simpa [expressionJson] using same
      rw [optionalSymbol_injective symbols]
    | _ => simp [expressionJson] at same
  | successor operand ih =>
    cases e' with
    | successor operand' =>
      have operands : expressionJson operand = expressionJson operand' := by
        simpa [expressionJson] using same
      rw [ih operands]
    | _ => simp [expressionJson] at same
  | negation operand ih =>
    cases e' with
    | negation operand' =>
      have operands : expressionJson operand = expressionJson operand' := by
        simpa [expressionJson] using same
      rw [ih operands]
    | _ => simp [expressionJson] at same
  | binary op left right ihLeft ihRight =>
    cases e' with
    | binary op' left' right' =>
      obtain ⟨ops, lefts, rights⟩ : operatorName op = operatorName op' ∧
          expressionJson left = expressionJson left' ∧
            expressionJson right = expressionJson right' := by
        simpa [expressionJson] using same
      rw [operatorName_injective ops, ihLeft lefts, ihRight rights]
    | _ => simp [expressionJson] at same
  | quantified q bound body ih =>
    cases e' with
    | quantified q' bound' body' =>
      obtain ⟨quantifiers, bounds, bodies⟩ : quantifierName q = quantifierName q' ∧
          optionalSymbol bound = optionalSymbol bound' ∧
            expressionJson body = expressionJson body' := by
        simpa [expressionJson] using same
      rw [quantifierName_injective quantifiers, optionalSymbol_injective bounds, ih bodies]
    | _ => simp [expressionJson] at same

theorem stepJson_injective : Function.Injective stepJson := by
  intro step step' same
  obtain ⟨index, kind, label, description, inputs⟩ := step
  obtain ⟨index', kind', label', description', inputs'⟩ := step'
  obtain ⟨rfl, kinds, rfl, rfl, references⟩ : index = index' ∧ kind.name = kind'.name ∧
      label = label' ∧ description = description' ∧
        inputs.map Json.number = inputs'.map Json.number := by
    simpa only [stepJson, Json.record.injEq, List.cons.injEq, Prod.mk.injEq, Json.number.injEq,
      Json.text.injEq, Json.list.injEq, true_and, and_true] using same
  have numbers : Function.Injective Json.number := fun _ _ => Json.number.inj
  rw [StepKind.name_injective kinds, List.map_injective_iff.mpr numbers references]

theorem itemJson_injective : Function.Injective itemJson := by
  intro item item' same
  obtain ⟨c, code, prime, factor⟩ := item
  obtain ⟨c', code', prime', factor'⟩ := item'
  obtain ⟨chars, rfl, rfl, factors⟩ : String.singleton c = String.singleton c' ∧
      code = code' ∧ prime = prime' ∧ Decimal.text factor = Decimal.text factor' := by
    simpa only [itemJson, Json.record.injEq, List.cons.injEq, Prod.mk.injEq, Json.number.injEq,
      Json.text.injEq, true_and, and_true] using same
  rw [String.singleton_inj.mp chars, Decimal.text_injective factors]

theorem encodingJson_injective : Function.Injective encodingJson := by
  intro encoding encoding' same
  obtain ⟨items, number⟩ := encoding
  obtain ⟨items', number'⟩ := encoding'
  obtain ⟨records, numbers⟩ : items.map itemJson = items'.map itemJson ∧
      Decimal.text number = Decimal.text number' := by
    simpa only [encodingJson, Json.record.injEq, List.cons.injEq, Prod.mk.injEq, Json.text.injEq,
      Json.list.injEq, true_and, and_true] using same
  rw [List.map_injective_iff.mpr itemJson_injective records, Decimal.text_injective numbers]

theorem analysisValue_injective : Function.Injective analysisValue := by
  intro a b same
  obtain ⟨formula, symbols, consumed, root, steps, encoding⟩ := a
  obtain ⟨formula', symbols', consumed', root', steps', encoding'⟩ := b
  obtain ⟨rfl, tokens, rfl, roots, records, encodings⟩ : formula = formula' ∧
      symbols.map Symbol.toJson = symbols'.map Symbol.toJson ∧ consumed = consumed' ∧
        expressionJson root = expressionJson root' ∧
          steps.map stepJson = steps'.map stepJson ∧
            encodingJson encoding = encodingJson encoding' := by
    simpa only [analysisValue, Json.record.injEq, List.cons.injEq, Prod.mk.injEq,
      Json.number.injEq, Json.text.injEq, Json.list.injEq, true_and, and_true] using same
  rw [List.map_injective_iff.mpr Symbol.toJson_injective tokens, expressionJson_injective roots,
    List.map_injective_iff.mpr stepJson_injective records, encodingJson_injective encodings]

/-- Two analyses have the same report only if they are the same. -/
theorem analysisJson_inj (a b : Analysis) : analysisJson a = analysisJson b ↔ a = b := by
  constructor
  · intro same
    exact analysisValue_injective (Json.pretty_injective 0 same)
  · rintro rfl
    rfl

end Report

end Arithmetization
