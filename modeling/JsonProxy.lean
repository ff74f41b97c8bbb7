import JsonProxy.Go.Bytes
import JsonProxy.Go.Loop
import JsonProxy.Go.Json
import JsonProxy.Go.Crypto
import JsonProxy.Go.Path.Match
import JsonProxy.Go.Path.Clean
import JsonProxy.Go.Url
import JsonProxy.Go.Http
import JsonProxy.Types
import JsonProxy.Filter
import JsonProxy.Filter.Keys
import JsonProxy.Filter.Output
import JsonProxy.Proxy.Request
import JsonProxy.Proxy.Serve
import JsonProxy.Auth
import JsonProxy.Api
import JsonProxy.Go.Http.ServeMux
import JsonProxy.Server
import JsonProxy.Go.Int
import JsonProxy.Hdr.Index
import JsonProxy.Hdr.Histogram
import JsonProxy.Hdr.New
import JsonProxy.Hdr.Window
import JsonProxy.Metrics.Registry
import JsonProxy.Metrics.Wrap
import JsonProxy.Logging
import JsonProxy.Envconfig
import JsonProxy.Go.Hex
import JsonProxy.Main
import JsonProxy.AccessLog
