import ServiceMetadata.Proofs.Json.Tokens

/-!
# A written value is read back

The tokens of a value take the reader from a place where a value is wanted to the place behind it,
and what it has put there is the value's own tree. So a written value, read as a whole text, gives
its tree and leaves nothing over.
-/
namespace ServiceMetadata.Json

variable {e e' : Expect} {t : Token} {frames : List Frame} (rest : List Token)

theorem build_step (h : e.step t = .inl e') : build e (t :: rest) = build e' rest := by
  cases e with
  | nothing root => cases h
  | _ => rw [build, h]; simp

inductive Awaits : Expect → List Frame → Prop
  | value (afterComma : Bool) (frames : List Frame) : Awaits (.value afterComma frames) frames
  | firstItem (frames : List Frame) : Awaits (.firstItem frames) (.items [] :: frames)

theorem Awaits.build (h : Awaits e frames) (ht : beginValue frames t = .inl e') :
    build e (t :: rest) = build e' rest := by
  apply build_step
  cases h with
  | value afterComma frames =>
    cases t with
    | closeList => cases ht
    | _ => simp [Expect.step, ht]
  | firstItem frames =>
    cases t with
    | closeList => cases ht
    | _ => simp [Expect.step, ht]

theorem build_key (afterComma : Bool) (done : List (Key × Node)) (frames : List Frame) (k : String)
    (rest : List Token) :
    build (.key afterComma done frames) (.string (.ok k) :: .colon :: rest) =
      build (.value false (.member done (.string (.ok k)) :: frames)) rest := by
  rw [build_step _ rfl, build_step _ rfl]

mutual

theorem build_value : (v : Value) → (e : Expect) → (frames : List Frame) → (rest : List Token) →
    Awaits e frames → build e (v.tokens ++ rest) = build (plug (Node.ofValue v) frames) rest
  | .null, _, _, rest, h | .bool true, _, _, rest, h | .bool false, _, _, rest, h
  | .number _, _, _, rest, h | .string _, _, _, rest, h => h.build rest rfl
  | .array [], e, frames, rest, h => by
    calc build e (.openList :: .closeList :: rest)
      _ = build (.firstItem frames) (.closeList :: rest) := h.build _ rfl
      _ = build (plug (.array []) frames) rest := build_step rest rfl
  | .array (v :: items), e, frames, rest, h => by
    calc build e ((Value.array (v :: items)).tokens ++ rest)
      _ = build e (.openList :: (v.tokens ++ (tokensOfItems items ++ .closeList :: rest))) := by
        simp [Value.tokens]
      _ = build (.firstItem frames) (v.tokens ++ (tokensOfItems items ++ .closeList :: rest)) :=
        h.build _ rfl
      _ = build (.itemEnd [Node.ofValue v] frames) (tokensOfItems items ++ .closeList :: rest) :=
        build_value v _ _ _ (.firstItem frames)
      _ = build (plug (.array (Node.ofValue v :: nodesOfItems items)) frames) rest :=
        build_items items [Node.ofValue v] frames rest
  | .object [], e, frames, rest, h => by
    calc build e (.openObject :: .closeObject :: rest)
      _ = build (.key false [] frames) (.closeObject :: rest) := h.build _ rfl
      _ = build (plug (.object []) frames) rest := build_step rest rfl
  | .object ((k, v) :: members), e, frames, rest, h => by
    have hkey := build_key false [] frames k
      (v.tokens ++ (tokensOfMembers members ++ .closeObject :: rest))
    calc build e ((Value.object ((k, v) :: members)).tokens ++ rest)
      _ = build e (.openObject :: (.string (.ok k) :: .colon ::
          (v.tokens ++ (tokensOfMembers members ++ .closeObject :: rest)))) := by
        simp [Value.tokens]
      _ = build (.key false [] frames) (.string (.ok k) :: .colon ::
          (v.tokens ++ (tokensOfMembers members ++ .closeObject :: rest))) := h.build _ rfl
      _ = build (.memberEnd [(.string (.ok k), Node.ofValue v)] frames)
          (tokensOfMembers members ++ .closeObject :: rest) :=
        hkey.trans (build_value v _ _ _ (.value _ _))
      _ = build (plug (.object ((.string (.ok k), Node.ofValue v) :: nodesOfMembers members))
          frames) rest :=
        build_members members [(.string (.ok k), Node.ofValue v)] frames rest

theorem build_items : (items : List Value) → (done : List Node) → (frames : List Frame) →
    (rest : List Token) →
    build (.itemEnd done frames) (tokensOfItems items ++ .closeList :: rest) =
      build (plug (.array (done.reverse ++ nodesOfItems items)) frames) rest
  | [], done, frames, rest => by
    rw [nodesOfItems, List.append_nil]
    exact build_step rest rfl
  | v :: items, done, frames, rest => by
    calc build (.itemEnd done frames) (tokensOfItems (v :: items) ++ .closeList :: rest)
      _ = build (.itemEnd done frames)
          (.comma :: (v.tokens ++ (tokensOfItems items ++ .closeList :: rest))) := by
        simp [tokensOfItems]
      _ = build (.value true (.items done :: frames))
          (v.tokens ++ (tokensOfItems items ++ .closeList :: rest)) := build_step _ rfl
      _ = build (.itemEnd (Node.ofValue v :: done) frames)
          (tokensOfItems items ++ .closeList :: rest) := build_value v _ _ _ (.value _ _)
      _ = build (plug (.array ((Node.ofValue v :: done).reverse ++ nodesOfItems items)) frames)
          rest := build_items items _ frames rest
      _ = build (plug (.array (done.reverse ++ nodesOfItems (v :: items))) frames) rest := by
        simp [nodesOfItems]

theorem build_members : (members : List (String × Value)) → (done : List (Key × Node)) →
    (frames : List Frame) → (rest : List Token) →
    build (.memberEnd done frames) (tokensOfMembers members ++ .closeObject :: rest) =
      build (plug (.object (done.reverse ++ nodesOfMembers members)) frames) rest
  | [], done, frames, rest => by
    rw [nodesOfMembers, List.append_nil]
    exact build_step rest rfl
  | (k, v) :: members, done, frames, rest => by
    have hkey := build_key true done frames k
      (v.tokens ++ (tokensOfMembers members ++ .closeObject :: rest))
    calc build (.memberEnd done frames) (tokensOfMembers ((k, v) :: members) ++ .closeObject :: rest)
      _ = build (.memberEnd done frames) (.comma :: .string (.ok k) :: .colon ::
          (v.tokens ++ (tokensOfMembers members ++ .closeObject :: rest))) := by
        simp [tokensOfMembers]
      _ = build (.key true done frames) (.string (.ok k) :: .colon ::
          (v.tokens ++ (tokensOfMembers members ++ .closeObject :: rest))) := build_step _ rfl
      _ = build (.memberEnd ((.string (.ok k), Node.ofValue v) :: done) frames)
          (tokensOfMembers members ++ .closeObject :: rest) :=
        hkey.trans (build_value v _ _ _ (.value _ _))
      _ = build (plug (.object (((.string (.ok k), Node.ofValue v) :: done).reverse ++
          nodesOfMembers members)) frames) rest := build_members members _ frames rest
      _ = build (plug (.object (done.reverse ++ nodesOfMembers ((k, v) :: members))) frames)
          rest := by
        simp [nodesOfMembers]

end

theorem reading_pretty (v : Value) (h : v.WellSpelled) :
    Reading.ofString v.pretty = { root := Node.ofValue v, more := false } := by
  have hsymbols : Text.symbolsOfString v.pretty = (v.write 0).map some := by
    rw [Value.pretty, Text.symbolsOfString, String.toList_ofList]
  have hbuild := build_value v (.value false []) [] [] (.value _ _)
  rw [List.append_nil, plug, build] at hbuild
  simp [Reading.ofString, readSymbolsAsNode, hsymbols, tokens_write v h, hbuild]

end ServiceMetadata.Json
