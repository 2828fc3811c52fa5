import FengShui.Core.Dart

/-!
# Exceptions of the reactive protocol (`reactive/exception.dart`)
-/

namespace FengShui.Reactive.ReactiveExceptions

def applicationErrorCode : ℕ := 0x00000201
def invalidSetupCode : ℕ := 0x00000001
def rejectedRequestCode : ℕ := 0x00000202

def invalidSetupContent : DartString := literal "The Setup frame is invalid"

def rejectedContent : DartString :=
  literal "Despite being a valid request, the Responder decided to reject it"

def invalidSetup : DartException := .reactiveException invalidSetupCode invalidSetupContent

end FengShui.Reactive.ReactiveExceptions
