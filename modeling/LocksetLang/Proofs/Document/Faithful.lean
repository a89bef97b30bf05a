import LocksetLang.Proofs.Document.Reading
import LocksetLang.Proofs.Node.Document
import LocksetLang.Proofs.Source.Outcomes

/-! Programs as JSON. One function reads the program back from its text, whatever the indentation is
and whatever the tree holds. -/

namespace LocksetLang

def Node.ofJson? (text : String) : Option Node := (Document.ofJson? text).bind Node.ofDocument?

/-- A program is read back from its text, which is ASCII, whatever the indentation is; and there is a
text for any indentation that is an index. -/
theorem ofJson?_render (indent : Option Int) (body : List Node) :
    (∀ text, render "json" indent (.program body) = .ok text →
      Node.ofJson? text = some (.program body) ∧ ∀ c ∈ text.toList, c.toNat < 0x80) ∧
    ((∀ n ∈ indent, -0x8000000000000000 ≤ n ∧ n < 0x8000000000000000) →
      ∃ text, render "json" indent (.program body) = .ok text) := by
  refine ⟨fun text h => ?_,
    fun hi => ⟨_, render_json_document (fun n hn => isIndex_iff.2 (hi n hn)) body⟩⟩
  obtain ⟨hread, hascii⟩ := Document.ofJson?_json indent (Node.program body).document
  rw [document_of_render_json h]
  refine ⟨?_, hascii⟩
  rw [Node.ofJson?, hread, Option.bind_some, Node.ofDocument?_document]

/-- A zero with a sign, a condition without an alternate and one with an empty alternate, and
characters of every plane, on lines without spaces. -/
theorem signed_zero_ofJson?_render :
    (∀ n ∈ some (-1 : Int), -0x8000000000000000 ≤ n ∧ n < 0x8000000000000000) ∧ ∃ text,
      render "json" (some (-1)) (.program [.number (.zero true),
        .conditional (.string "\"\t𝄞") [] none, .conditional (.identifier "é") [] (some [])]) =
          .ok text ∧
      Node.ofJson? text = some (.program [.number (.zero true),
        .conditional (.string "\"\t𝄞") [] none, .conditional (.identifier "é") [] (some [])]) ∧
      ∀ c ∈ text.toList, c.toNat < 0x80 := by
  have hi : ∀ n ∈ some (-1 : Int), -0x8000000000000000 ≤ n ∧ n < 0x8000000000000000 := by decide
  have h := ofJson?_render (some (-1)) [.number (.zero true),
    .conditional (.string "\"\t𝄞") [] none, .conditional (.identifier "é") [] (some [])]
  obtain ⟨text, htext⟩ := h.2 hi
  exact ⟨hi, text, htext, h.1 text htext⟩

end LocksetLang
