/-!
# Why a graph refuses

The causes for which a graph, or a repository that holds one, refuses an operation, and the message
of each.

That the slots or the numbers of types have run out is no cause here, since they are natural numbers
and not numbers of 32 bits. So the error of a full store is left out, and with it its message, `vertex
store capacity exceeded (slots are addressed by u32)`, or else `edge store` or `type interner`. A file
that cannot be read or written has an error of its own, `FileError`, and a text in it that is no graph a
`Json.Fault`.
-/

namespace PatternGraph

/-- Why an operation on a graph fails. -/
inductive GraphError where
  /-- The text is no edge id. -/
  | invalidEdgeId (id : String)
  /-- A vertex with this id is stored already. -/
  | duplicateVertex (id : String)
  /-- An end of the edge is not stored. -/
  | danglingEdge (edge vertex : String)
  /-- The repository behind the graph fails. -/
  | backend (reason : String)
deriving DecidableEq, Repr

/-- The message of an error. -/
def GraphError.message : GraphError → String
  | invalidEdgeId id =>
    "InvalidEdgeId: `" ++ id ++ "` is not of the form `source-[types]->target`"
  | duplicateVertex id => "vertex `" ++ id ++ "` already exists"
  | danglingEdge edge vertex =>
    "edge `" ++ edge ++ "` references missing vertex `" ++ vertex ++ "`"
  | backend reason => "repository backend failure: " ++ reason

end PatternGraph
