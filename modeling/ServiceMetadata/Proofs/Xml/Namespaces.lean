import ServiceMetadata.Xml.Namespace
import ServiceMetadata.Proofs.Xml.Markup

/-!
# Namespaces in a written tree

A reader finds the attributes of a tag as they were written, and the bindings that it keeps mean
what holds in the element.
-/
namespace ServiceMetadata.Xml

def Scope.meaning (scope : Scope) : Tree.Environment := fun q =>
  match scope.find? fun b => b.qualifier = q with
  | some b => if b.uri = [] then none else some b.uri
  | none => none

theorem Scope.namespaceOf_eq (scope : Scope) (name : List Char) :
    scope.namespaceOf name = scope.meaning (qualifier name) := rfl

theorem Scope.meaning_cons (q : Option (List Char)) (uri : List Char) (scope : Scope) :
    Scope.meaning (⟨q, uri⟩ :: scope) = scope.meaning.bind q uri := by
  funext q'
  by_cases h : q' = q
  · subst h
    simp [Scope.meaning, Tree.Environment.bind]
  · simp [Scope.meaning, Tree.Environment.bind, h, Ne.symm h]

theorem Scope.meaning_initial : Scope.initial.meaning = .initial := by
  funext q
  cases q with
  | none => rfl
  | some q =>
    by_cases hxml : q = xmlName
    · subst hxml
      decide
    by_cases hxmlns : q = xmlnsName
    · subst hxmlns
      decide
    · simp [Scope.meaning, Scope.initial, Tree.Environment.initial, hxml, hxmlns, Ne.symm hxml,
        Ne.symm hxmlns]

theorem attributes_of_some {s rest : List Char} {a : Attribute}
    (h : readAttribute s = some (a, rest)) : attributes s = a :: attributes rest := by
  rw [attributes]
  split <;> simp_all

theorem attributes_of_none {s : List Char} (h : readAttribute s = none) : attributes s = [] := by
  rw [attributes]
  split <;> simp_all

namespace Tree

theorem PlainName.colon_not_mem (n : PlainName) : ':' ∉ n.chars := by
  intro hmem
  have hname := n.plain ':' hmem
  exact absurd hname (by decide)

theorem cut_at_colon (q : PlainName) (rest : List Char) :
    (q.chars ++ ':' :: rest).takeWhile (· ≠ ':') = q.chars ∧
      (q.chars ++ ':' :: rest).dropWhile (· ≠ ':') = ':' :: rest := by
  have hcolon := decide_ne_of_not_mem q.colon_not_mem
  rw [List.takeWhile_append_of_pos hcolon, List.dropWhile_append_of_pos hcolon]
  simp

theorem PlainName.contains_colon (n : PlainName) : n.chars.contains ':' = false := by
  simpa using n.colon_not_mem

theorem qualifier_render (n : QualifiedName) :
    qualifier n.render = n.qualifier.map (·.chars) := by
  obtain ⟨q, name⟩ := n
  cases q with
  | none => simp only [qualifier, QualifiedName.render, name.contains_colon]; rfl
  | some q =>
    have hcontains : (q.chars ++ ':' :: name.chars).contains ':' = true := by simp
    rw [qualifier, QualifiedName.render, if_pos hcontains, (cut_at_colon q name.chars).1]
    rfl

theorem localName_render (n : QualifiedName) : localName n.render = n.localPart.chars := by
  obtain ⟨q, name⟩ := n
  cases q with
  | none => simp only [localName, QualifiedName.render, name.contains_colon]; rfl
  | some q =>
    have hcontains : (q.chars ++ ':' :: name.chars).contains ':' = true := by simp
    rw [localName, QualifiedName.render, if_pos hcontains, (cut_at_colon q name.chars).2]
    rfl

theorem dropWhile_spaces (s : Spaces) {c : Char} (hc : isSpace c = false) (rest : List Char) :
    (s.chars ++ c :: rest).dropWhile isSpace = c :: rest := by
  rw [List.dropWhile_append_of_pos s.spaces, List.dropWhile_cons_of_neg (by simp [hc])]

theorem QualifiedName.isKeyChar_of_mem_render {n : QualifiedName} {c : Char} (h : c ∈ n.render) :
    isKeyChar c = true := by
  have hsign : c ≠ '=' := n.ne_of_mem_render h (by simp)
  simp [isKeyChar, hsign, n.not_isSpace_of_mem_render h]

namespace Key

theorem isKeyChar_of_mem_render {k : Key} {c : Char} (h : c ∈ k.render) : isKeyChar c = true := by
  have hxmlns : ∀ c ∈ xmlnsName ++ [':'], isKeyChar c = true := List.all_eq_true.1 (by decide)
  cases k with
  | plain n hn => exact n.isKeyChar_of_mem_render h
  | defaultNamespace => exact hxmlns c (List.mem_append_left _ h)
  | namespaceOf q =>
    have hrender : (Key.namespaceOf q).render = xmlnsName ++ [':'] ++ q.chars := by
      simp [Key.render]
    rw [hrender, List.mem_append] at h
    rcases h with h | h
    · exact hxmlns c h
    · exact QualifiedName.isKeyChar_of_mem_render (n := ⟨none, q⟩) h

theorem render_ne_nil (k : Key) : k.render ≠ [] := by
  cases k with
  | plain n hn => exact n.render_ne_nil
  | defaultNamespace => decide
  | namespaceOf q => simp [Key.render]

end Key

namespace WrittenAttribute

def toAttribute (a : WrittenAttribute) : Attribute where
  key := a.key.render
  value := a.value

theorem readQuoted_quoted (a : WrittenAttribute) (rest : List Char) :
    readQuoted (a.quoted ++ rest) = some (a.value, rest) := by
  have hmark : (a.mark.char = '"' || a.mark.char = '\'') = true := by cases a.mark <;> rfl
  have hvalue := decide_ne_of_not_mem a.unquoted
  have hquoted : a.quoted ++ rest = a.mark.char :: (a.value ++ a.mark.char :: rest) := by
    simp [quoted]
  rw [hquoted, readQuoted, if_pos hmark, List.dropWhile_append_of_pos hvalue,
    List.takeWhile_append_of_pos hvalue]
  simp

theorem readAttribute_render (a : WrittenAttribute) (rest : List Char) :
    readAttribute (a.render ++ rest) = some (a.toAttribute, rest) := by
  obtain ⟨first, more, hkey⟩ := List.exists_cons_of_ne_nil a.key.render_ne_nil
  have hkeyChar : ∀ c ∈ first :: more, isKeyChar c = true := by
    intro c hc
    exact a.key.isKeyChar_of_mem_render (hkey ▸ hc)
  have hfirst : isSpace first = false := by
    have hchar := hkeyChar first List.mem_cons_self
    simp only [isKeyChar, Bool.and_eq_true, Bool.not_eq_true'] at hchar
    exact hchar.2
  have hmore : ∀ c ∈ more, isKeyChar c = true :=
    fun c hc => hkeyChar c (List.mem_cons_of_mem _ hc)
  let value := a.afterSign.chars ++ (a.quoted ++ rest)
  let gap := a.beforeSign.chars ++ '=' :: value
  have hrender : a.render ++ rest = a.before.chars ++ first :: (more ++ gap) := by
    simp [render, hkey, gap, value]
  have hgap : gap.takeWhile isKeyChar = [] ∧ gap.dropWhile isKeyChar = gap := by
    have hspaces := a.beforeSign.spaces
    cases hchars : a.beforeSign.chars with
    | nil => simp [gap, hchars, isKeyChar]
    | cons c chars =>
      have hspace := hspaces c (hchars ▸ List.mem_cons_self)
      simp [gap, hchars, isKeyChar, hspace]
  have hsign : gap.dropWhile isSpace = '=' :: value := dropWhile_spaces a.beforeSign (by decide) _
  have hvalue : value.dropWhile isSpace = a.quoted ++ rest :=
    dropWhile_spaces a.afterSign (by cases a.mark <;> decide) _
  rw [readAttribute, hrender, dropWhile_spaces a.before hfirst]
  simp only [List.dropWhile_append_of_pos hmore, List.takeWhile_append_of_pos hmore, hgap.1,
    hgap.2, hsign, hvalue, readQuoted_quoted, List.append_nil, Option.map_some, toAttribute, hkey]

end WrittenAttribute

theorem attributes_renderRest (t : WrittenTag) :
    attributes t.renderRest = t.attributes.map (·.toAttribute) := by
  obtain ⟨name, as, after⟩ := t
  have hnone : readAttribute after.chars = none := by
    have hdrop : after.chars.dropWhile isSpace = [] := by
      have happend : (after.chars ++ []).dropWhile isSpace = [].dropWhile isSpace :=
        List.dropWhile_append_of_pos after.spaces
      rwa [List.append_nil] at happend
    rw [readAttribute, hdrop]
  induction as with
  | nil => exact attributes_of_none hnone
  | cons a as ih =>
    have hrest : WrittenTag.renderRest ⟨name, a :: as, after⟩ =
        a.render ++ WrittenTag.renderRest ⟨name, as, after⟩ := by
      simp [WrittenTag.renderRest]
    rw [hrest, attributes_of_some (a.readAttribute_render _), ih]
    rfl

theorem QualifiedName.render_ne_xmlns {n : QualifiedName} (h : n.first.chars ≠ xmlnsName) :
    n.render ≠ xmlnsName := by
  obtain ⟨q, name⟩ := n
  cases q with
  | none => exact h
  | some q =>
    intro heq
    have hmem : ':' ∈ xmlnsName := by
      rw [← heq]
      simp [QualifiedName.render]
    exact absurd hmem (by decide)

theorem QualifiedName.take_render_ne_xmlns {n : QualifiedName} (h : n.first.chars ≠ xmlnsName) :
    n.render.take 6 ≠ xmlnsName ++ [':'] := by
  obtain ⟨q, name⟩ := n
  intro htake
  cases q with
  | none =>
    have hmem : ':' ∈ name.chars := by
      apply List.mem_of_mem_take (i := 6)
      rw [show name.chars.take 6 = xmlnsName ++ [':'] from htake]
      simp
    exact name.colon_not_mem hmem
  | some q =>
    have hsplit : q.chars ++ ':' :: name.chars =
        xmlnsName ++ [':'] ++ (q.chars ++ ':' :: name.chars).drop 6 := by
      have happend := List.take_append_drop 6 (q.chars ++ ':' :: name.chars)
      rw [show (q.chars ++ ':' :: name.chars).take 6 = xmlnsName ++ [':'] from htake] at happend
      exact happend.symm
    apply h
    calc
      q.chars = (q.chars ++ ':' :: name.chars).takeWhile (· ≠ ':') := (cut_at_colon q _).1.symm
      _ = (xmlnsName ++ [':'] ++ (q.chars ++ ':' :: name.chars).drop 6).takeWhile (· ≠ ':') :=
        congrArg _ hsplit
      _ = xmlnsName := by simp [xmlnsName]

theorem declare_toAttribute (a : WrittenAttribute) (scope : Scope) :
    ∃ scope', scope.declare a.toAttribute = .ok scope' ∧
      scope'.meaning = a.apply scope.meaning := by
  obtain ⟨before, separated, key, beforeSign, afterSign, mark, value, unquoted, admitted⟩ := a
  cases key with
  | plain n hn =>
    refine ⟨scope, ?_, rfl⟩
    rw [Scope.declare, WrittenAttribute.toAttribute, Key.render, if_neg (n.render_ne_xmlns hn),
      if_neg (n.take_render_ne_xmlns hn)]
  | defaultNamespace => exact ⟨⟨none, value⟩ :: scope, rfl, Scope.meaning_cons _ _ _⟩
  | namespaceOf q =>
    have hkey : xmlnsName ++ ':' :: q.chars ≠ xmlnsName := by simp
    have htake : (xmlnsName ++ ':' :: q.chars).take 6 = xmlnsName ++ [':'] := rfl
    have hdrop : (xmlnsName ++ ':' :: q.chars).drop 6 = q.chars := rfl
    obtain ⟨-, hallowed⟩ := admitted
    simp only [Scope.declare, WrittenAttribute.toAttribute, Key.render, hkey, htake, hdrop,
      if_false, if_true, WrittenAttribute.apply]
    by_cases hxml : q.chars = xmlName
    · rw [if_pos hxml] at hallowed
      exact ⟨scope, by simp [hxml, hallowed], by simp [hxml]⟩
    · rw [if_neg hxml] at hallowed
      obtain ⟨hxmlns, hxmlUri, hxmlnsUri⟩ := hallowed
      refine ⟨⟨some q.chars, value⟩ :: scope, ?_, ?_⟩
      · simp [hxml, hxmlns, hxmlUri, hxmlnsUri, q.nonempty]
      · rw [if_neg hxml, Scope.meaning_cons]

theorem enter_attributes (as : List WrittenAttribute) (scope : Scope) :
    ∃ scope', scope.enter (as.map (·.toAttribute)) = .ok scope' ∧
      scope'.meaning = as.foldl (fun env a => a.apply env) scope.meaning := by
  induction as generalizing scope with
  | nil => exact ⟨scope, rfl, rfl⟩
  | cons a as ih =>
    obtain ⟨scope₁, hdeclare, hmeaning₁⟩ := declare_toAttribute a scope
    obtain ⟨scope', henter, hmeaning⟩ := ih scope₁
    refine ⟨scope', ?_, ?_⟩
    · rw [Scope.enter, List.map_cons, List.foldlM_cons, hdeclare]
      exact henter
    · rw [hmeaning, hmeaning₁]
      rfl

end Tree
end ServiceMetadata.Xml
