import MonkeyLexis.Text.Basic

/-!
# The user's name

The name is the first nonempty one of four environment variables, or else the
name of the account. If there is no account, or the system cannot tell, the user
is a stranger; any other failure of the account look-up is passed on.
-/

namespace MonkeyLexis

/-- Why the account of the user is not known. -/
inductive AccountFailure where
  | missing
  | system
  | other (description : Text)
  deriving DecidableEq, Repr

/-- What is known about the user: environment variables and the account's name. -/
structure Identity where
  environment : List (Text × Text)
  account : Except AccountFailure Text

namespace Identity

/-- The variables that may hold the name, in order of preference. -/
def nameVariables : List Text := ["LOGNAME", "USER", "LNAME", "USERNAME"]

def variableName? (i : Identity) : Option Text :=
  nameVariables.findSome? fun name => (i.environment.lookup name).filter (· != [])

/-- The user's name, or why the look-up failed. -/
def name (i : Identity) : Except Text Text :=
  match i.variableName?, i.account with
  | some name, _ => .ok name
  | none, .ok name => .ok name
  | none, .error .missing => .ok "stranger"
  | none, .error .system => .ok "stranger"
  | none, .error (.other description) => .error description

end Identity

def greeting (user : Text) : Text :=
  "Hello " ++ user ++ "! This is the Monkey programming language!"

end MonkeyLexis
