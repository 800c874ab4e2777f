import TinyScript.Proofs.Evaluation.Pairs
import TinyScript.Proofs.Grammar.Reading
import TinyScript.Proofs.Number.Whole
import TinyScript.Proofs.Store.Drawing
import TinyScript.Proofs.Store.Edits
import TinyScript.Proofs.Store.Extension

namespace TinyScript

open Evaluation Grammar

/-- The entry of a value under a key, written with a dot or in brackets. -/
inductive Grammar.Selects (xs : List Token) (left : Expr) (key : Text) : List Token → Expr → Prop
  | dot {dot name : Token} : dot.kind = .dot → name.kind = .identifier → name.literal = key →
      Selects xs left key (xs ++ [dot, name]) (.index dot.location left (.string name.location key))
  | brackets {opening t closing : Token} : opening.kind = .leftBracket → t.kind = .string key →
      closing.kind = .rightBracket →
      Selects xs left key (xs ++ [opening, t, closing]) (.index opening.location left (.string t.location key))

variable {xs ys : List Token} {left e : Expr} {key : Text} {n : Nat} {c : Context} {st st' mid before : State}
  {id : ObjectId} {entries : List (Text × Value)} {pairs : List (Text × Expr)}

theorem Grammar.Selects.derives (selects : Selects xs left key ys e) (derives : Derives (.expr .suffixed) xs left) :
    Derives (.expr .suffixed) ys e := by
  cases selects with
  | dot isDot isName same =>
    subst same
    exact .member derives isDot isName
  | brackets opens isString closes =>
    exact .index derives opens ((Derives.literal (.string isString)).loosen .expression (by decide)) closes

/-- Both ways of writing it the entry is looked up alike. -/
theorem Grammar.Selects.eval (selects : Selects xs left key ys e)
    (object : Evaluation.eval n c.inside left before = .done (.object id) st) :
    Evaluation.eval (n + 1) c e before = .done (((st.store.entries id).get? key).getD .null)
      { st with latest := ((st.store.entries id).get? key).getD .null } := by
  have look (location place : Location) : Evaluation.eval (n + 1) c (.index location left (.string place key)) before =
      .done (((st.store.entries id).get? key).getD .null)
        { st with latest := ((st.store.entries id).get? key).getD .null } := by
    cases n with
    | zero => cases object
    | succ n =>
      show Run.keeping (do
        let left ← Evaluation.eval (n + 1) c.inside left
        let index ← Evaluation.eval (n + 1) c.inside (.string place key)
        left.at location.line index) before = _
      rw [Run.keeping, Run.bind_apply, Run.bind_apply, object]
      rfl
  cases selects <;> exact look _ _

/-- The text of an object with some entries. What is in the object is written with the object around it. -/
def Store.objectText (s : Store) (id : ObjectId) (entries : List (Text × Value)) : Text :=
  "\x7b" ++ Text.join ", " (entries.map fun entry =>
    entry.1 ++ ": " ++ s.text true s.aggregateCount [.object id] entry.2) ++ "\x7d"

/-- What can be seen of an object that is the map of some pairs. -/
structure State.MapLike (st : State) (id : ObjectId) (pairs : List (Text × Value)) : Prop where
  /-- Under a key stands the value of the last pair with this key. -/
  last : ∀ line (key : Packed) v, Table.IsLast pairs key.text v →
    (Value.object id).at line (.string key) st = .done v st
  /-- Under every other key there is null. -/
  absent : ∀ line (key : Packed), key.text ∉ pairs.map Prod.fst →
    (Value.object id).at line (.string key) st = .done .null st
  /-- With a dot and in brackets the same entry is selected. -/
  selected : ∀ {xs left key ys e}, Selects xs left key ys e → Derives (.expr .suffixed) xs left →
    Derives (.expr .suffixed) ys e ∧ ∀ n c before, eval n c.inside left before = .done (.object id) st →
      ∃ v, eval (n + 1) c e before = .done v { st with latest := v } ∧
        ∀ line, (Value.object id).at line (.string key.packed) st = .done v st
  len : ∀ time line, Builtin.len.apply time line [.object id] st =
    .done (.number (Exact.ofNat (pairs.map Prod.fst).toFinset.card)) st
  /-- This is the number of keys itself, unless there are more of them than doubles can count. -/
  lenExact : (pairs.map Prod.fst).toFinset.card ≤ 2 ^ 53 →
    (Value.number (Exact.ofNat (pairs.map Prod.fst).toFinset.card)).position? =
      some (pairs.map Prod.fst).toFinset.card
  /-- Printed are the last pairs with their keys, each of them once, in increasing order of the keys. Where the object
  is not in itself, the values are printed as they are by themselves. -/
  shown : ∃ listed : List (Text × Value), listed.Pairwise (fun a b => a.1 < b.1) ∧
    (∀ key v, (key, v) ∈ listed ↔ Table.IsLast pairs key v) ∧
    st.store.display (.object id) = st.store.objectText id listed ∧
    st.store.inspect (.object id) = st.store.objectText id listed ∧
    (¬ st.store.HoldsItself (.object id) → ∀ key v, (key, v) ∈ listed →
      st.store.text true st.store.aggregateCount [.object id] v = st.store.inspect v)

theorem Store.text_object (s : Store) (quoted : Bool) (id : ObjectId) :
    s.text quoted (s.aggregateCount + 1) [] (.object id) = s.objectText id (s.entries id).entries := by
  rw [text, if_neg List.not_mem_nil]
  rfl

/-- An object with the entries of a table of pairs is their map. -/
theorem State.mapLike {pairs : List (Text × Value)} (built : st.store.entries id = .ofList pairs) :
    st.MapLike id pairs where
  last line key v isLast := by
    show Outcome.done (((st.store.entries id).get? key.text).getD .null) st = _
    rw [built, Table.get?_ofList_eq_some_iff.2 isLast, Option.getD_some]
  absent line key absent := by
    show Outcome.done (((st.store.entries id).get? key.text).getD .null) st = _
    rw [built, Table.get?_ofList_eq_none_iff.2 absent, Option.getD_none]
  selected selects derives := ⟨selects.derives derives, fun n c before object => ⟨_, selects.eval object, fun _ => rfl⟩⟩
  len time line := by
    show Outcome.done (Value.number (Exact.ofNat (st.store.entries id).size)) st = _
    rw [built, Table.size_ofList]
  lenExact small := Exact.toNat?_eq_some_iff.2 (Exact.equals_ofNat small)
  shown := by
    refine ⟨(st.store.entries id).entries, (st.store.entries id).sorted, fun key v => ?_, st.store.text_object false id,
      st.store.text_object true id, fun acyclic key v mem => ?_⟩
    · rw [built]
      exact Table.mem_entries_ofList
    · exact Store.text_inside (List.mem_map_of_mem mem) rfl acyclic (Nat.lt_succ_self _)

theorem eval_object {location : Location} : eval (n + 1) c (.object location pairs) st =
    match evalPairs n c.inside [] pairs st with
    | .done entries mid => .done (.object mid.store.objects.size)
      ⟨(mid.store.newObject (.ofList entries)).2, mid.printed, .object mid.store.objects.size⟩
    | .failed error mid => .failed error mid
    | .unfinished => .unfinished := by
  show Run.keeping (do
    let entries ← evalPairs n c.inside [] pairs
    return .object (← .creating (·.newObject (.ofList entries)))) st = _
  rw [Run.keeping, Run.bind_apply, Run.bind_apply]
  cases evalPairs n c.inside [] pairs st <;> rfl

/-- A literal yields an object exactly when the values of its pairs are worked out in turn. The object is new, and is
made behind all of them. -/
theorem eval_object_done_iff {location : Location} {v : Value} :
    (∃ n, eval n c (.object location pairs) st = .done v st') ↔ ∃ entries mid, InTurn c.inside st pairs entries mid ∧
      v = .object mid.store.objects.size ∧ st' = ⟨(mid.store.newObject (.ofList entries)).2, mid.printed, v⟩ := by
  constructor
  · rintro ⟨n, done⟩
    cases n with
    | zero => cases done
    | succ n =>
      rw [eval_object] at done
      split at done
      · next entries mid run =>
        cases done
        exact ⟨entries, mid, evalPairs_done_iff.1 ⟨n, run⟩, rfl, rfl⟩
      · cases done
      · cases done
  · rintro ⟨entries, mid, inTurn, rfl, rfl⟩
    obtain ⟨n, run⟩ := evalPairs_done_iff.2 inTurn
    exact ⟨n + 1, by rw [eval_object, run]⟩

/-- A literal fails exactly when one of its values does. Those behind it are not begun, and no object is made. -/
theorem eval_object_failed_iff {location : Location} {error : RuntimeError} :
    (∃ n, eval n c (.object location pairs) st = .failed error st') ↔ FailsInTurn c.inside st pairs error st' := by
  rw [← evalPairs_failed_iff]
  constructor
  · rintro ⟨n, failed⟩
    cases n with
    | zero => cases failed
    | succ n =>
      rw [eval_object] at failed
      split at failed
      · cases failed
      · next error mid run =>
        cases failed
        exact ⟨n, run⟩
      · cases failed
  · rintro ⟨n, run⟩
    exact ⟨n + 1, by rw [eval_object, run]⟩

/-- For pairs with keys of any spelling, repeated or not: a literal of them is read as these pairs, whatever stands
behind it. It yields an object exactly when their values are worked out in turn, each of them once and in the order of
the source, and then the object is made and nothing else happens. As long as nothing is taken away from the store, this
object is the map of the pairs. The literal fails exactly when a value fails behind others that have been worked out,
and then all is as this value has left it: no object is made. -/
theorem Grammar.Derives.object_maps {opening closing : Token} (derives : Derives .pairs xs pairs)
    (opens : opening.kind = .leftBrace) (closes : closing.kind = .rightBrace) :
    (∀ finish rest, Parser.Settles Parser.operand finish (opening :: (xs ++ closing :: rest))
      (.ok (.object opening.location pairs) rest [])) ∧
    (∀ (c : Context) st v st', (∃ n, eval n c (.object opening.location pairs) st = .done v st') ↔
      ∃ entries mid, InTurn c.inside st pairs entries mid ∧ v = .object mid.store.objects.size ∧
        st' = ⟨(mid.store.newObject (.ofList entries)).2, mid.printed, v⟩) ∧
    (∀ (c : Context) st entries mid, InTurn c.inside st pairs entries mid →
      entries.map Prod.fst = pairs.map Prod.fst ∧
      ∀ later : State, (mid.store.newObject (.ofList entries)).2.Keeps later.store →
        later.MapLike mid.store.objects.size entries) ∧
    (∀ (c : Context) st error st', (∃ n, eval n c (.object opening.location pairs) st = .failed error st') ↔
      FailsInTurn c.inside st pairs error st') := by
  refine ⟨fun finish rest => .operand_object opens (derives.reads finish closing rest closes),
    fun c st v st' => eval_object_done_iff, fun c st entries mid inTurn => ⟨inTurn.keys, fun later keeps => ?_⟩,
    fun c st error st' => eval_object_failed_iff⟩
  have there : (mid.store.newObject (.ofList entries)).2.Has (.object mid.store.objects.size) := by
    simp [Store.newObject, Store.Has]
  refine State.mapLike ((keeps.entries _ there).trans ?_)
  exact mid.store.entries_newObject (.ofList entries)

/-- A key that is written as a number, and then again as a text. -/
theorem Grammar.Derives.object_maps_spellings :
    let opening : Token := ⟨.leftBrace, "\x7b", ⟨1, 1⟩⟩
    let number : List Token := [⟨.number 1, "1", ⟨1, 2⟩⟩, ⟨.colon, ":", ⟨1, 3⟩⟩, ⟨.trueWord, "true", ⟨1, 4⟩⟩]
    let comma : Token := ⟨.comma, ",", ⟨1, 8⟩⟩
    let text : List Token :=
      [⟨.string "1", "\"1\"", ⟨1, 9⟩⟩, ⟨.colon, ":", ⟨1, 12⟩⟩, ⟨.falseWord, "false", ⟨1, 13⟩⟩]
    let closing : Token := ⟨.rightBrace, "\x7d", ⟨1, 18⟩⟩
    let literal : Expr := .object ⟨1, 1⟩ [("1", .boolean ⟨1, 4⟩ true), ("1", .boolean ⟨1, 13⟩ false)]
    Parser.Settles Parser.operand ⟨1, 19⟩ (opening :: ((number ++ comma :: text) ++ [closing])) (.ok literal [] []) ∧
    ∃ st, (∃ n, eval n ⟨0, 0, 100, 100, 0⟩ literal ⟨.empty, #[], .null⟩ = .done (.object 0) st) ∧
      (Value.object 0).at 1 (.string ("1" : Text).packed) st = .done (.boolean false) st ∧
      Builtin.len.apply 0 1 [.object 0] st = .done (.number (Exact.ofNat 1)) st := by
  intro opening number comma text closing literal
  have spelled : numberText 1 = "1" := by decide +kernel
  have key : Key ⟨.number 1, "1", ⟨1, 2⟩⟩ "1" := spelled ▸ .number rfl
  have first : Derives (.expr .expression) [⟨.trueWord, "true", ⟨1, 4⟩⟩] (.boolean ⟨1, 4⟩ true) :=
    (Derives.literal (.trueWord rfl)).loosen .expression (by decide)
  have second : Derives (.expr .expression) [⟨.falseWord, "false", ⟨1, 13⟩⟩] (.boolean ⟨1, 13⟩ false) :=
    (Derives.literal (.falseWord rfl)).loosen .expression (by decide)
  have derives : Derives .pairs (number ++ comma :: text) _ :=
    .pairsCons key rfl first rfl (.pairsLast (.string rfl) rfl second)
  have opens : opening.kind = .leftBrace := rfl
  have closes : closing.kind = .rightBrace := rfl
  obtain ⟨reads, builds, maps, -⟩ := Grammar.Derives.object_maps derives opens closes
  let c : Context := ⟨0, 0, 100, 100, 0⟩
  let st : State := ⟨.empty, #[], .null⟩
  have inTurn : InTurn c.inside st [("1", .boolean ⟨1, 4⟩ true), ("1", .boolean ⟨1, 13⟩ false)]
      [("1", .boolean true), ("1", .boolean false)] ⟨.empty, #[], .boolean false⟩ :=
    .next ⟨1, rfl⟩ (.next ⟨1, rfl⟩ .done)
  have laws := (maps c st _ _ inTurn).2 ⟨_, #[], .object 0⟩ (.refl _)
  refine ⟨reads ⟨1, 19⟩ [], _, (builds c st _ _).2 ⟨_, _, inTurn, rfl, rfl⟩, ?_, ?_⟩
  · exact laws.last 1 _ _ ⟨[_], [], rfl, nofun⟩
  · exact laws.len 0 1

end TinyScript
