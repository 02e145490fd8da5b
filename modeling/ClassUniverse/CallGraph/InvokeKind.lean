/-!
# Kinds of calls

How control gets from one method to another.
-/

namespace ClassUniverse

/-- The kind of a call. -/
inductive InvokeKind
  | invalid
  | static
  | virtual
  | interface
  | special
  | classInit
  | thread
  | executor
  | asyncTask
  | finalize
  | invokeFinalize
  | privileged
  | newInstance
  deriving DecidableEq, Repr, Inhabited

namespace InvokeKind

/-- The kinds in the order in which they are numbered. -/
def all : List InvokeKind :=
  [invalid, static, virtual, interface, special, classInit, thread, executor, asyncTask, finalize,
    invokeFinalize, privileged, newInstance]

def name : InvokeKind → String
  | invalid => "Invalid"
  | static => "Static"
  | virtual => "Virtual"
  | interface => "Interface"
  | special => "Special"
  | classInit => "Clinit"
  | thread => "Thread"
  | executor => "Executor"
  | asyncTask => "AsyncTask"
  | finalize => "Finalize"
  | invokeFinalize => "InvokeFinalize"
  | privileged => "Privileged"
  | newInstance => "NewInstance"

def ofName? (s : String) : Option InvokeKind := all.find? fun kind => kind.name == s

/-- Whether the machine makes the call without an instruction at the call site. -/
def isImplicit : InvokeKind → Bool
  | static | virtual | interface | special => false
  | _ => true

end InvokeKind

end ClassUniverse
