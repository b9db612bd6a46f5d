import EnvFiles.Store.Basic

/-!
# Logged stores

A logged store notes every read, write and delete. A read is noted when it has given its answer,
a write or delete before it is done. Asking whether a path is held is not noted.
-/

namespace EnvFiles

/-- The name of the logger of file operations. -/
def filesLogger : Text := "env_vars_doctor.files"

/-- The notice of a read. -/
def readNotices (logger : Text) (path : Path) : Except Failure (Option Text) → List Notice
  | .ok content => [.fileRead logger path (content.map List.length)]
  | .error _ => []

/-- The store with its operations noted. -/
def Store.logged {σ : Type} (inner : Store σ) (logger : Text := filesLogger) : Store σ where
  read path state :=
    let reply := inner.read path state
    { reply with notices := reply.notices ++ readNotices logger path reply.answer }
  write path text state :=
    let reply := inner.write path text state
    { reply with notices := .fileWritten logger path text.length :: reply.notices }
  delete path state :=
    let reply := inner.delete path state
    { reply with notices := .fileDeleted logger path :: reply.notices }
  holds := inner.holds

end EnvFiles
