import Gradual.Scope.Basic

/-!
# The prelude: what every program starts from

The types of literals and collections, the function `range`, and the functions of the core library, which are known by name
only.
-/

namespace Gradual

/-- The names of the types that are there from the start; the last three may be applied to arguments. -/
def preludeTypes : List String := ["Any", "Number", "String", "Symbol", "Boolean", "Nil", "Vector", "Map", "List"]

/-- The functions of the core library that are known by name only. -/
def coreFunctions : List String := [
  "apply", "assoc", "assoc_in", "atom", "boolean", "butlast", "char", "comp", "compare", "complement", "concat", "conj",
  "cons", "constantly", "contains?", "count", "cycle", "dec", "deref", "disj", "dissoc", "distinct", "distinct?", "drop",
  "drop_while", "empty", "empty?", "even?", "every?", "false?", "ffirst", "filter", "filterv", "find", "first", "flatten",
  "float", "fnil", "format", "frequencies", "get", "get_in", "group_by", "hash", "hash_map", "hash_set", "identity", "inc",
  "int", "interleave", "interpose", "into", "iterate", "juxt", "keep", "key", "keys", "keyword", "keyword?", "last", "list",
  "list?", "long", "map", "map?", "mapcat", "mapv", "max", "memoize", "merge", "min", "mod", "name", "neg?", "next", "nil?",
  "not", "nth", "number?", "odd?", "partial", "partition", "peek", "pop", "pos?", "pr", "print", "println", "prn", "quot",
  "rand", "rand_int", "reduce", "rem", "remove", "repeat", "reset!", "rest", "reverse", "second", "seq", "seq?", "set",
  "set?", "some", "some?", "sort", "sort_by", "split_at", "str", "string?", "subs", "subvec", "swap!", "symbol", "symbol?",
  "take", "take_while", "true?", "update", "update_in", "val", "vals", "vec", "vector", "vector?", "zero?", "zipmap"]

/-- `range(start: Number, stop: Number, step: Number) -> List<Number>`. -/
def rangeDeclaration : Declaration :=
  ⟨"range", none, ["start", "stop", "step"], [.number, .number, .number], .applied "List" [.number]⟩

namespace Scope

/-- Binds the prelude at the innermost level. -/
def addPrelude (s : Scope) : Scope :=
  let s := preludeTypes.foldl (fun s n => s.addType n (.simple n)) s
  let s := s.addFunction rangeDeclaration.name (some rangeDeclaration)
  coreFunctions.foldl (fun s n => s.addFunction n none) s

/-- A scope of one level that holds the prelude. -/
def prelude : Scope := empty.addPrelude

end Scope

end Gradual
