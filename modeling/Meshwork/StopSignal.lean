namespace Meshwork

inductive StopSignal where
  | interrupt
  | terminate
  | ctrlC
deriving DecidableEq, Repr

def StopSignal.text : StopSignal → String
  | interrupt => "SIGINT"
  | terminate => "SIGTERM"
  | ctrlC => "Ctrl+C"

end Meshwork
