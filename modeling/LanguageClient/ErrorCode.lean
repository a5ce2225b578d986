import LanguageClient.Bytes

/-!
The version of the library and the error codes that JSON-RPC and the language server protocol
name.
-/

namespace LanguageClient

/-- The version of this library. -/
def libraryVersion : Bytes := bytes "0.1.0"

/-- An error with a code of its own. -/
inductive ErrorCode where
  | parseError
  | invalidRequest
  | methodNotFound
  | invalidParams
  | internalError
  | serverNotInitialized
  | requestCancelled
  | contentModified
  deriving DecidableEq

namespace ErrorCode

def code : ErrorCode → Int32
  | .parseError => -32700
  | .invalidRequest => -32600
  | .methodNotFound => -32601
  | .invalidParams => -32602
  | .internalError => -32603
  | .serverNotInitialized => -32002
  | .requestCancelled => -32800
  | .contentModified => -32801

/-- All of them, those of JSON-RPC first. -/
def all : List ErrorCode :=
  [.parseError, .invalidRequest, .methodNotFound, .invalidParams, .internalError,
    .serverNotInitialized, .requestCancelled, .contentModified]

end ErrorCode

end LanguageClient
