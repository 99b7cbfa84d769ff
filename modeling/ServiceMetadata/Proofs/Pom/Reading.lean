import ServiceMetadata.Pom
import ServiceMetadata.Proofs.Xml.Reader
import ServiceMetadata.Proofs.Xml.References

/-!
# Reading through a written tree for its version

Reading past a part of a tree comes to what is known before it with the part's character data added,
if the version's element has begun, and to the same number of open elements. Inside that element the
reading fails at a reference by number that has too many digits, be they zeros; elsewhere the digits
do not matter.
-/
namespace ServiceMetadata.Pom
open ServiceMetadata.Xml (Event Reader OpenElement Spells spelled)
open ServiceMetadata.Xml.Tree

variable {s s' s'' : State} {r r' r'' : Reader} {opened : List OpenElement} {rest : List Char}
  {p q : Prop}

theorem readFrom_event {event : Event} (hnext : r.next = .ok (some (event, r'))) :
    readFrom s r =
      match s.step event with
      | .error e => .error e
      | .ok (.finished version) => .ok version
      | .ok (.continue s') => readFrom s' r' := by
  rw [readFrom]
  split
  · simp_all
  · simp_all
  · rename_i h
    obtain ⟨rfl, rfl⟩ := Prod.mk.inj (Option.some.inj (Except.ok.inj (h.symm.trans hnext)))
    rfl

theorem readFrom_done (hnext : r.next = .ok none) : readFrom s r = .ok s.version := by
  rw [readFrom]
  split <;> simp_all

theorem readFrom_end (s : State) (opened : List OpenElement) :
    readFrom s ⟨opened, []⟩ = .ok s.version :=
  readFrom_done rfl

/-- The reading gives the same from both points if `p` holds, and nothing from the first if not. -/
def ReadsTo (p : Prop) (s : State) (r : Reader) (s' : State) (r' : Reader) : Prop :=
  ∀ version, readFrom s r = .ok version ↔ p ∧ readFrom s' r' = .ok version

theorem ReadsTo.refl (s : State) (r : Reader) : ReadsTo True s r s r :=
  fun _ => by rw [true_and]

theorem ReadsTo.trans (h : ReadsTo p s r s' r') (h' : ReadsTo q s' r' s'' r'') :
    ReadsTo (p ∧ q) s r s'' r'' := fun version => by rw [h version, h' version, and_assoc]

theorem ReadsTo.congr (h : ReadsTo p s r s' r') (hpq : p ↔ q) : ReadsTo q s r s' r' :=
  propext hpq ▸ h

theorem ReadsTo.of_event {event : Event} (hnext : r.next = .ok (some (event, r')))
    (hstep : s.step event = .ok (.continue s')) : ReadsTo True s r s' r' := by
  intro version
  rw [readFrom_event hnext, hstep, true_and]

namespace State

theorem append_of_none (h : s.version = none) (content : List Char) : s.append content = s := by
  obtain ⟨depth, version⟩ := s
  obtain rfl : version = none := h
  rfl

theorem append_nil (s : State) : s.append [] = s := by
  obtain ⟨depth, version⟩ := s
  cases version <;> simp [append]

theorem append_append (s : State) (a b : List Char) :
    (s.append a).append b = s.append (a ++ b) := by
  obtain ⟨depth, version⟩ := s
  cases version <;> simp [append]

theorem isSome_append (s : State) (content : List Char) :
    (s.append content).version.isSome = s.version.isSome := by
  cases h : s.version <;> simp [append, h]

end State

/-- What a run of character data up to the next tag does; a run that matters must spell
something. -/
theorem readFrom_run {run : List Char} {version : Option (List Char)} (hlt : '<' ∉ run)
    (hrest : rest.takeWhile (· ≠ '<') = []) :
    readFrom s ⟨opened, run ++ rest⟩ = .ok version ↔
      ∃ content, (s.version.isSome = true → spelled none run = some content) ∧
        readFrom (s.append content) ⟨opened, rest⟩ = .ok version := by
  by_cases hrun : run = []
  · -- An empty run is no event at all, so that nothing is known of how it would be read.
    subst hrun
    constructor
    · intro h
      exact ⟨[], fun _ => rfl, by rwa [s.append_nil]⟩
    · rintro ⟨content, hspelled, h⟩
      cases hversion : s.version with
      | none => rwa [State.append_of_none hversion] at h
      | some v =>
        obtain rfl : [] = content := Option.some.inj (hspelled (by rw [hversion]; rfl))
        rwa [s.append_nil] at h
  have hnext := next_text opened hrun hlt hrest
  cases hversion : s.version with
  | none =>
    have hstep : s.step (.text run) = .ok (.continue s) := by simp [State.step, hversion]
    rw [readFrom_event hnext, hstep]
    constructor
    · intro h
      exact ⟨[], by simp, by rwa [s.append_nil]⟩
    · rintro ⟨content, -, h⟩
      rwa [State.append_of_none hversion] at h
  | some v =>
    cases hrun : Xml.unescape run with
    | error e =>
      have hstep : s.step (.text run) = .error (.reference e) := by
        simp [State.step, hversion, hrun]
      rw [readFrom_event hnext, hstep]
      constructor
      · intro h
        simp at h
      · rintro ⟨content, hspelled, -⟩
        rw [← Xml.unescape_eq_ok, hrun] at hspelled
        simp at hspelled
    | ok content =>
      have hstep : s.step (.text run) = .ok (.continue (s.append content)) := by
        simp [State.step, hversion, hrun]
      have hspelled := Xml.unescape_eq_ok.1 hrun
      rw [readFrom_event hnext, hstep]
      constructor
      · intro h
        exact ⟨content, fun _ => hspelled, h⟩
      · rintro ⟨content', hspelled', h⟩
        obtain rfl : content = content' :=
          Option.some.inj (hspelled.symm.trans (hspelled' rfl))
        exact h

theorem takeWhile_dropWhile (p : Char → Bool) (s : List Char) :
    (s.dropWhile p).takeWhile p = [] := by
  induction s with
  | nil => rfl
  | cons c s ih =>
    by_cases hc : p c = true
    · rw [List.dropWhile_cons_of_pos hc, ih]
    · rw [List.dropWhile_cons_of_neg hc, List.takeWhile_cons_of_neg hc]

theorem reads_spelled {run content : List Char} (h : Spells p run content) (s : State)
    (opened : List OpenElement) (rest : List Char) :
    ReadsTo (s.version.isSome = true → p) s ⟨opened, run ++ rest⟩ (s.append content)
      ⟨opened, rest⟩ := by
  intro version
  -- The reader takes the run in one piece with the character data after it.
  let next := rest.takeWhile (· ≠ '<')
  let after := rest.dropWhile (· ≠ '<')
  have hsplit : rest = next ++ after := (List.takeWhile_append_dropWhile).symm
  have hafter : after.takeWhile (· ≠ '<') = [] := takeWhile_dropWhile _ _
  have hnext : '<' ∉ next := by
    intro hmem
    have hne := List.all_eq_true.1 List.all_takeWhile _ hmem
    simp at hne
  have hboth : '<' ∉ run ++ next := by
    rw [List.mem_append, not_or]
    exact ⟨h.tagless, hnext⟩
  rw [hsplit, ← List.append_assoc, readFrom_run hboth hafter, readFrom_run hnext hafter,
    s.isSome_append]
  by_cases hsome : s.version.isSome = true
  · simp only [hsome, forall_const]
    constructor
    · rintro ⟨both, hboth, hread⟩
      obtain ⟨hp, content', hspelled, rfl⟩ := (h.spelled_append next both).1 hboth
      exact ⟨hp, content', hspelled, by rwa [s.append_append]⟩
    · rintro ⟨hp, content', hspelled, hread⟩
      rw [s.append_append] at hread
      exact ⟨_, (h.spelled_append next _).2 ⟨hp, content', hspelled, rfl⟩, hread⟩
  · have hnone : s.version = none := by simpa using hsome
    simp [hsome, State.append_of_none hnone]

def IsFlat : Node → Prop
  | .element _ _ _ => False
  | _ => True

theorem reads_flat (n : Node) (hflat : IsFlat n) (s : State) (opened : List OpenElement)
    (rest : List Char) :
    ReadsTo (s.version.isSome = true → AllShort n.numbers) s ⟨opened, n.render ++ rest⟩
      (s.append n.content) ⟨opened, rest⟩ := by
  cases n with
  | element t children beforeEnd => exact hflat.elim
  | single t =>
    rw [Node.content, s.append_nil]
    exact (ReadsTo.of_event (next_single t) rfl).congr (by simp [Node.numbers])
  | text pieces => exact reads_spelled (pieces_spell pieces) s opened rest
  | cdata c => exact (ReadsTo.of_event c.next_render rfl).congr (by simp [Node.numbers])
  | comment c =>
    rw [Node.content, s.append_nil]
    exact (ReadsTo.of_event c.next_render rfl).congr (by simp [Node.numbers])
  | instruction i =>
    rw [Node.content, s.append_nil]
    exact (ReadsTo.of_event i.next_render rfl).congr (by simp [Node.numbers])

theorem render_element (t : WrittenTag) (children : List Node) (beforeEnd : Spaces)
    (rest : List Char) :
    (Node.element t children beforeEnd).render ++ rest =
      t.renderStart ++ (renderAll children ++ (t.renderEnd beforeEnd ++ rest)) := by
  simp [Node.render]

mutual

theorem reads_node (n : Node) (s : State) (hdepth : 2 ≤ s.depth) (opened : List OpenElement)
    (rest : List Char) :
    ReadsTo (s.version.isSome = true → AllShort n.numbers) s ⟨opened, n.render ++ rest⟩
      (s.append n.content) ⟨opened, rest⟩ := by
  match n with
  | .element t children beforeEnd =>
    rw [render_element]
    obtain ⟨scope, hstart, -⟩ :=
      next_start t opened (renderAll children ++ (t.renderEnd beforeEnd ++ rest))
    have hinside : 2 ≤ s.depth + 1 := by omega
    have hbegin : s.step (.start (t.nameIn (environmentOf opened))) =
        .ok (.continue { s with depth := s.depth + 1 }) := by
      have hzero : s.depth ≠ 0 := by omega
      have hone : s.depth ≠ 1 := by omega
      simp [State.step, hzero, hone]
    -- Only an end tag at depth two ends the reading, and this one stands deeper.
    have hend : ({ s with depth := s.depth + 1 }.append (contentOf children)).step .stop =
        .ok (.continue (s.append (contentOf children))) := by
      have htwo : s.depth + 1 ≠ 2 := by omega
      simp [State.step, State.append, htwo]
    have hchildren := reads_nodes children { s with depth := s.depth + 1 } hinside
      (⟨t.name.render, scope⟩ :: opened) (t.renderEnd beforeEnd ++ rest)
    have hreads := (ReadsTo.of_event hstart hbegin).trans
      (hchildren.trans (.of_event (next_end t beforeEnd scope) hend))
    exact hreads.congr (by rw [true_and, and_true, Node.numbers])
  | .single t => exact reads_flat (.single t) trivial s opened rest
  | .text pieces => exact reads_flat (.text pieces) trivial s opened rest
  | .cdata c => exact reads_flat (.cdata c) trivial s opened rest
  | .comment c => exact reads_flat (.comment c) trivial s opened rest
  | .instruction i => exact reads_flat (.instruction i) trivial s opened rest

theorem reads_nodes (ns : List Node) (s : State) (hdepth : 2 ≤ s.depth)
    (opened : List OpenElement) (rest : List Char) :
    ReadsTo (s.version.isSome = true → AllShort (numbersOf ns)) s ⟨opened, renderAll ns ++ rest⟩
      (s.append (contentOf ns)) ⟨opened, rest⟩ := by
  match ns with
  | [] =>
    rw [renderAll, contentOf, s.append_nil]
    exact (ReadsTo.refl _ _).congr (by simp [numbersOf])
  | n :: ns =>
    rw [renderAll, contentOf, List.append_assoc, ← s.append_append]
    have hreads := (reads_node n s hdepth opened (renderAll ns ++ rest)).trans
      (reads_nodes ns (s.append n.content) hdepth opened rest)
    exact hreads.congr (by rw [s.isSome_append, numbersOf, allShort_append, imp_and])

end

theorem reads_inside {t : WrittenTag} (hdepth : 2 ≤ s'.depth)
    (hbegin : s.step (.start (t.nameIn (environmentOf opened))) = .ok (.continue s'))
    (children : List Node) (beforeEnd : Spaces) (rest : List Char) :
    ∃ scope, ReadsTo (s'.version.isSome = true → AllShort (numbersOf children)) s
      ⟨opened, (Node.element t children beforeEnd).render ++ rest⟩ (s'.append (contentOf children))
      ⟨⟨t.name.render, scope⟩ :: opened, t.renderEnd beforeEnd ++ rest⟩ := by
  obtain ⟨scope, hstart, -⟩ :=
    next_start t opened (renderAll children ++ (t.renderEnd beforeEnd ++ rest))
  rw [render_element]
  have hreads := (ReadsTo.of_event hstart hbegin).trans (reads_nodes children s' hdepth _ _)
  exact ⟨scope, hreads.congr (by rw [true_and])⟩

end ServiceMetadata.Pom
