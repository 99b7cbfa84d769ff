import ServiceMetadata.Xml.Reader
import ServiceMetadata.Proofs.Xml.Namespaces

/-!
# Reading a written tree

The events that the parts of a tree give, and what a reader knows after each: which elements are
open, and what qualifiers stand for inside the innermost one.
-/
namespace ServiceMetadata.Xml.Tree

variable {opened : List OpenElement} {rest : List Char}

def environmentOf (opened : List OpenElement) : Environment := (Reader.scope ⟨opened, []⟩).meaning

theorem environmentOf_nil : environmentOf [] = .initial := Scope.meaning_initial

theorem next_of_meet {opened' : List OpenElement} {text : List Char} {m : Markup} {event : Event}
    (hm : readMarkup text = .ok (some (m, rest)))
    (hmeet : Reader.meet ⟨opened, text⟩ m = .ok (event, opened')) :
    Reader.next ⟨opened, text⟩ = .ok (some (event, ⟨opened', rest⟩)) := by
  simp only [Reader.next, hm, hmeet]

theorem next_text {run : List Char} (opened : List OpenElement) (h : run ≠ []) (hlt : '<' ∉ run)
    (hrest : rest.takeWhile (· ≠ '<') = []) :
    Reader.next ⟨opened, run ++ rest⟩ = .ok (some (.text run, ⟨opened, rest⟩)) :=
  next_of_meet (readMarkup_text h hlt hrest) rfl

theorem Cdata.next_render (c : Cdata) :
    Reader.next ⟨opened, c.render ++ rest⟩ = .ok (some (.cdata c.content, ⟨opened, rest⟩)) :=
  next_of_meet (c.readMarkup_render rest) rfl

theorem Comment.next_render (c : Comment) :
    Reader.next ⟨opened, c.render ++ rest⟩ = .ok (some (.other, ⟨opened, rest⟩)) :=
  next_of_meet (c.readMarkup_render rest) rfl

theorem Instruction.next_render (i : Instruction) :
    Reader.next ⟨opened, i.render ++ rest⟩ = .ok (some (.other, ⟨opened, rest⟩)) :=
  next_of_meet (i.readMarkup_render rest) rfl

theorem enter_tag (t : WrittenTag) (opened : List OpenElement) (text : List Char) :
    ∃ scope, (Reader.scope ⟨opened, text⟩).enter (attributes t.toTag.attributes) = .ok scope ∧
      scope.meaning = t.environment (environmentOf opened) := by
  have hattributes : attributes t.toTag.attributes = t.attributes.map (·.toAttribute) :=
    attributes_renderRest t
  rw [hattributes]
  exact enter_attributes t.attributes _

theorem next_single (t : WrittenTag) :
    Reader.next ⟨opened, t.renderSingle ++ rest⟩ = .ok (some (.other, ⟨opened, rest⟩)) := by
  apply next_of_meet (readMarkup_single t rest)
  obtain ⟨scope, henter, -⟩ := enter_tag t opened (t.renderSingle ++ rest)
  rw [Reader.meet, henter]
  rfl

theorem next_start (t : WrittenTag) (opened : List OpenElement) (rest : List Char) :
    ∃ scope,
      Reader.next ⟨opened, t.renderStart ++ rest⟩ =
        .ok (some (.start (t.nameIn (environmentOf opened)),
          ⟨⟨t.name.render, scope⟩ :: opened, rest⟩)) ∧
      environmentOf (⟨t.name.render, scope⟩ :: opened) =
        t.environment (environmentOf opened) := by
  obtain ⟨scope, henter, hmeaning⟩ := enter_tag t opened (t.renderStart ++ rest)
  refine ⟨scope, next_of_meet (readMarkup_start t rest) ?_, hmeaning⟩
  have hname : t.nameIn (environmentOf opened) =
      { uri := scope.namespaceOf t.name.render, localName := localName t.name.render } := by
    rw [Scope.namespaceOf_eq, qualifier_render, hmeaning, localName_render]
    rfl
  rw [Reader.meet, henter, hname]
  rfl

theorem stopName_render (n : QualifiedName) (after : Spaces) :
    Reader.stopName (n.render ++ after.chars) = n.render := by
  obtain ⟨c, cs, hrender⟩ := List.exists_cons_of_ne_nil n.render_ne_nil
  have hc : isSpace c = false := n.not_isSpace_of_mem_render (hrender ▸ List.mem_cons_self)
  have hall : (n.render ++ after.chars).all isSpace = false := by simp [hrender, hc]
  obtain ⟨d, ds, hreverse⟩ := List.exists_cons_of_ne_nil
    (show n.render.reverse ≠ [] by simp [hrender])
  have hd : isSpace d = false := by
    apply n.not_isSpace_of_mem_render
    rw [← List.mem_reverse, hreverse]
    exact List.mem_cons_self
  have hspaces : ∀ x ∈ after.chars.reverse, isSpace x = true := by
    intro x hx
    exact after.spaces x (List.mem_reverse.1 hx)
  rw [Reader.stopName, hall, if_neg Bool.false_ne_true, List.reverse_append,
    List.dropWhile_append_of_pos hspaces, hreverse, List.dropWhile_cons_of_neg (by simp [hd]),
    ← hreverse, List.reverse_reverse]

theorem next_end (t : WrittenTag) (after : Spaces) (scope : Scope) :
    Reader.next ⟨⟨t.name.render, scope⟩ :: opened, t.renderEnd after ++ rest⟩ =
      .ok (some (.stop, ⟨opened, rest⟩)) := by
  apply next_of_meet (readMarkup_end t after rest)
  simp only [Reader.meet, stopName_render, if_true]

end ServiceMetadata.Xml.Tree
