import HeuristicTyping.Dump
import HeuristicTyping.Inference.Resolver

/-!
# Sessions

A `Session` is the state of one analysis: the files seen so far, the program graph and registries
built from them, and the memo of what was found. When a file is indexed again, its earlier nodes
and registrations go first, and with any such change the memo is cleared, so no finding outlives
what it was found from.
-/

set_option autoImplicit false

namespace HeuristicTyping

/-- The state of one analysis. -/
structure Session where
  settings : Settings := {}
  surroundings : Surroundings
  files : FileTable := {}
  graph : Graph := {}
  registries : Registries := {}
  memo : Memo := {}
  /-- The questions put to the surroundings so far, latest first. -/
  asked : List Question := []

/-! ### Building a file -/

/-- A step in building the contents of a file. -/
inductive BuildStep where
  /-- Asks for the number of the file. -/
  | file
  /-- Asks for the number that the next node will have. -/
  | nextNode
  /-- Asks for the number of live nodes of all files. -/
  | graphSize
  | add (kind : NodeKind)
  /-- Adds a node that spans the offsets from `start` to `stop`. -/
  | addAt (start stop : Nat) (kind : NodeKind)
  | addVariable (name : String)
  | recordCall (var : VarId) (call : CalledMethod)
  | registerMethod (node : NodeId)
  | registerFunction (name : String) (node : NodeId)
  | registerField (scope : FieldScope) (owner name : String) (node : NodeId)

/-- What a step answers. -/
inductive BuildAnswer where
  | number (value : Nat)
  | flag (value : Bool)
  | nothing
deriving DecidableEq, Repr

/-- A file under construction, with the graph and registries that it becomes part of. -/
structure Draft where
  file : FileId
  graph : Graph
  registries : Registries

namespace Draft

/-- Adds a node of the file. -/
def add (draft : Draft) (kind : NodeKind) (span : Option Span) : BuildAnswer × Draft :=
  let (id, graph) := draft.graph.add kind (some draft.file) span
  (.number id, { draft with graph })

/-- Performs a step. There is no answer, and nothing changes, if a span ends before it starts. A
node that is no definition is not registered as a method. -/
def step (draft : Draft) : BuildStep → Option (BuildAnswer × Draft)
  | .file => some (.number draft.file, draft)
  | .nextNode => some (.number draft.graph.nextNode, draft)
  | .graphSize => some (.number draft.graph.size, draft)
  | .add kind => some (draft.add kind none)
  | .addAt start stop kind => (Span.between? start stop).map fun span => draft.add kind (some span)
  | .addVariable name =>
      let (var, graph) := draft.graph.addVariable name (some draft.file)
      some (.number var, { draft with graph })
  | .recordCall var call =>
      some (.nothing, { draft with graph := draft.graph.recordCall var call })
  | .registerMethod node =>
      match draft.graph.kind? node with
      | some (.definition method) =>
          let methods :=
            draft.registries.methods.registerDefinition method node (some draft.file)
          some (.flag true, { draft with registries := { draft.registries with methods } })
      | _ => some (.flag false, draft)
  | .registerFunction name node =>
      let methods := draft.registries.methods.registerFunction name node (some draft.file)
      some (.nothing, { draft with registries := { draft.registries with methods } })
  | .registerField scope owner name node =>
      let (answers, registries) :=
        draft.registries.registerField scope owner name node (some draft.file)
      some (.flag answers, { draft with registries })

/-- Performs steps in order, up to the first that has no answer. There are answers only if every
step has one; what was built up to then is kept in any case. -/
def run : Draft → List BuildStep → Option (List BuildAnswer) × Draft
  | draft, [] => (some [], draft)
  | draft, step :: steps =>
      match draft.step step with
      | none => (none, draft)
      | some (answer, draft) =>
          let (answers, draft) := run draft steps
          (answers.map fun rest => answer :: rest, draft)

end Draft

namespace Session

/-! ### Changes -/

/-- Drops what was built from a file, and everything found so far. -/
def dropFile (session : Session) (file : FileId) : Session :=
  { session with
    graph := (session.graph.removeFile file).2
    registries := (session.registries.removeFile file).2
    memo := {} }

/-- Builds the contents of a file anew. -/
def indexFile (session : Session) (path : Path) (steps : List BuildStep) :
    Option (List BuildAnswer) × Session :=
  let (file, files) := session.files.intern path
  let cleared := { session.dropFile file with files }
  let draft : Draft := { file, graph := cleared.graph, registries := cleared.registries }
  let (answers, built) := draft.run steps
  (answers, { cleared with graph := built.graph, registries := built.registries })

/-- Forgets a file, and answers whether it was known. -/
def removeFile (session : Session) (path : Path) : Bool × Session :=
  match session.files.get? path with
  | some file => (true, session.dropFile file)
  | none => (false, session)

/-- Forgets everything, file numbers too. -/
def reset (session : Session) : Session :=
  { session with files := {}, graph := {}, registries := {}, memo := {} }

/-! ### Queries -/

/-- What the session works on. -/
def project (session : Session) : Project where
  graph := session.graph
  registries := session.registries
  settings := session.settings

/-- What findings depend on. -/
def env (session : Session) : Env where
  project := session.project
  surroundings := session.surroundings

/-- Answers an inquiry, and remembers what was found on the way. -/
def query {α : Type} (session : Session) (inquiry : Inquiry α) : α × Session :=
  let (result, progress) := session.env.resolve inquiry { memo := session.memo }
  (result,
    { session with memo := progress.memo, asked := progress.asked ++ session.asked })

/-- What is found for a node. -/
def infer (session : Session) (id : NodeId) : Inference × Session :=
  session.query (Inquiry.inferNode id)

/-- What is found for every live node, in ascending order of the numbers. -/
def inferAll (session : Session) : List Inference × Session :=
  session.query (Inquiry.each Inquiry.inferNode session.graph.ids)

/-- The signature of a definition. -/
def signatureOf (session : Session) (id : NodeId) : Option MethodSig × Session :=
  session.query (session.project.signatureOf id)

/-- The type of a value on which the given calls are made. -/
def guess (session : Session) (calls : List CalledMethod) : Inference × Session :=
  session.query (Duck.guess session.project calls)

/-- The dump of the live nodes among the given ones. -/
def dump (session : Session) (ids : List NodeId) : GraphDump × Session :=
  session.query (session.project.dump ids)

/-- The dump of a file, if the file is known. -/
def dumpFile (session : Session) (path : Path) : Option GraphDump × Session :=
  match session.files.get? path with
  | some file =>
      let (dump, session) := session.dump ((session.graph.nodesIn file).map Node.id)
      (some dump, session)
  | none => (none, session)

end Session

/-- The text shown for a node: the signature of a definition, the type of anything else. -/
def Project.hover (project : Project) (id : NodeId) : Inquiry (Option String) := do
  match project.graph.kind? id with
  | none => return none
  | some (.definition method) =>
      let signature ← project.signatureOf id
      let level := if method.typeLevel then "self." else ""
      return signature.map fun signature =>
        "def " ++ level ++ method.name ++ ": " ++ signature.render
  | some _ => return some (← Inquiry.typeOf id).render

namespace Session

/-- The text shown for a node. -/
def hover (session : Session) (id : NodeId) : Option String × Session :=
  session.query (session.project.hover id)

/-- The text shown for the innermost node at an offset of a file. -/
def hoverAt (session : Session) (path : Path) (offset : Nat) : Option String × Session :=
  match (session.files.get? path).bind fun file => session.graph.nodeAt? file offset with
  | some id => session.hover id
  | none => (none, session)

end Session

end HeuristicTyping
